import SqliteFs.Device
import SqliteFs.Lib.Run
import SqliteFs.Lib.Splitting

/-!
`n_strsplit` and `n_strsplit_set` of base.c. Strings are their bytes before the
NUL, a pointer into a string is the rest of it from there. `size_t` has 64 bits.
A call has no result where a length does not fit its `int32_t`, since the copy
is then made into a block that cannot be allocated, or without its end.
-/

namespace SqliteFs

open Lib

abbrev CString := List UInt8

def strstr (haystack needle : CString) : Option CString := search needle haystack

/-- `length` is an `int32_t`. -/
def nStrdup (str : CString) : Option CString :=
  if int32 (str.length + 1) = str.length + 1 then some str else none

/-- `n` and `n + 1` are `int32_t`. -/
def nStrndup (str : CString) (n : Int) : Option CString :=
  if 0 ≤ n ∧ int32 (n + 1) = n + 1 then some (str.take n.toNat) else none

/-- The list is stored from the index `n` downwards; `wrap` is the type of the index. -/
def fillBack (wrap : Int → Int) :
    List (Option CString) → Int → List CString → Option (List (Option CString))
  | array, _, [] => some array
  | array, n, data :: list =>
    if 0 ≤ n ∧ n < array.length then
      fillBack wrap (array.set n.toNat (some data)) (wrap (n - 1)) list
    else none

/-- The strings of a vector up to its NULL. -/
def tokensOf : List (Option CString) → List CString
  | some token :: vector => token :: tokensOf vector
  | _ => []

/-- The vector of `n + 1` pointers, with NULL at `n` and the list before it. -/
def newVector (wrap : Int → Int) (n : Int) (list : List CString) : Option (List CString) :=
  if n < wrap (n + 1) then
    (fillBack wrap (List.replicate (n + 1).toNat none) (wrap (n - 1)) list).map tokensOf
  else none

/-! ## n_strsplit -/

/-- The variables of the loop of `n_strsplit` but for `max_tokens`. -/
structure Splitter where
  stringList : List (Option CString)
  n : Int
  remainder : CString
  s : Option CString

namespace Splitter

/-- The body of the loop. `delimiter_len` is a `uint32_t`. -/
def cut (st : Splitter) (delimiter s : CString) : Splitter :=
  let len := uint32 (st.remainder.length - s.length)
  let remainder := s.drop (uint32 delimiter.length).toNat
  { stringList := nStrndup st.remainder (int32 len) :: st.stringList
    n := uint32 (st.n + 1)
    remainder := remainder
    s := strstr remainder delimiter }

/-- One evaluation of `--max_tokens && s`, and the body if it holds. -/
def round (delimiter : CString) (l : Nat × Splitter) : Option (Nat × Splitter) :=
  if l.1 - 1 = 0 then none else l.2.s.map fun s => (l.1 - 1, l.2.cut delimiter s)

/-- The loop for the value of `max_tokens`, which is positive. -/
def loop (delimiter : CString) : Nat → Splitter → Splitter
  | 0, st => st
  | maxTokens + 1, st =>
    match round delimiter (maxTokens + 1, st) with
    | none => st
    | some l => loop delimiter maxTokens l.2

/-- Before the loop. -/
def start (string delimiter : CString) : Splitter := ⟨[], 0, string, strstr string delimiter⟩

end Splitter

/-- `max_tokens` after the test for 0, which stands for `INT_MAX`. -/
def tokenLimit (maxTokens : Nat) : Nat := if maxTokens < 1 then 2147483647 else maxTokens

def nStrsplit (string delimiter : CString) (maxTokens : Nat) : Option (List CString) :=
  let maxTokens := tokenLimit maxTokens
  let st := Splitter.start string delimiter
  let st := if st.s.isSome then st.loop delimiter maxTokens else st
  let st := if string ≠ [] then
      { st with n := uint32 (st.n + 1), stringList := nStrdup st.remainder :: st.stringList }
    else st
  (st.stringList.mapM id).bind (newVector uint32 st.n)

/-! ## n_strsplit_set -/

/-- The variables of the loop of `n_strsplit_set` but for `s`. -/
structure SetSplitter where
  tokens : List (Option CString)
  nTokens : Int
  current : CString

def delimTable (delimiters : CString) : UInt8 → Bool :=
  delimiters.foldl (fun table c => Function.update table c true) fun _ => false

def setLoop (table : UInt8 → Bool) (maxTokens : Int) : CString → SetSplitter → SetSplitter
  | [], st => st
  | b :: s, st =>
    if table b ∧ int32 (st.nTokens + 1) < maxTokens then
      setLoop table maxTokens s
        { tokens := nStrndup st.current (int32 (st.current.length - (b :: s).length)) :: st.tokens
          nTokens := int32 (st.nTokens + 1)
          current := s }
    else setLoop table maxTokens s st

def nStrsplitSet (string delimiters : CString) (maxTokens : Int) : Option (List CString) :=
  let maxTokens := if maxTokens < 1 then 2147483647 else maxTokens
  if string = [] then some []
  else
    let st := setLoop (delimTable delimiters) maxTokens string ⟨[], 0, string⟩
    let tokens := nStrndup st.current (int32 st.current.length) :: st.tokens
    (tokens.mapM id).bind (newVector int32 (int32 (st.nTokens + 1)))

/-! ## The vector -/

theorem tokensOf_map_some (tokens : List CString) :
    tokensOf (tokens.map some ++ [none]) = tokens := by
  induction tokens with
  | nil => rfl
  | cons token tokens ih => exact congrArg (token :: ·) ih

/-- As many strings as there are places below the index are stored in reverse. -/
theorem fillBack_eq {wrap : Int → Int} {list : List CString} (hwrap : ∀ x : Int, 0 ≤ x →
    x ≤ list.length → wrap x = x) {array : List (Option CString)} {n : Int}
    (hn : list ≠ [] → n = list.length - 1) (hfits : list.length ≤ array.length) :
    fillBack wrap array n list = some (list.reverse.map some ++ array.drop list.length) := by
  induction list generalizing array n with
  | nil => rfl
  | cons data list ih =>
      have hindex : n = list.length := by
        rw [hn (List.cons_ne_nil data list), List.length_cons]
        omega
      rw [List.length_cons] at hfits
      have hset : array.set list.length (some data) =
          array.take list.length ++ some data :: array.drop (list.length + 1) := by
        rw [List.set_eq_take_append_cons_drop, if_pos (by omega)]
      have hnext : list ≠ [] → wrap (n - 1) = list.length - 1 := by
        intro hne
        have hpos := List.length_pos_iff.mpr hne
        rw [hindex]
        exact hwrap _ (by omega) (by rw [List.length_cons]; omega)
      have hroom : list.length ≤ (array.set list.length (some data)).length := by
        rw [List.length_set]
        omega
      have hrest := ih (fun x hx hle => hwrap x hx (by rw [List.length_cons]; omega)) hnext hroom
      have htake : (array.take list.length).length = list.length :=
        List.length_take_of_le (by omega)
      rw [hset, List.drop_left' htake] at hrest
      rw [fillBack, if_pos (by omega), hindex, Int.toNat_natCast, hset, ← hindex, hrest]
      simp only [List.reverse_cons, List.map_append, List.map_cons, List.map_nil,
        List.append_assoc, List.singleton_append, List.length_cons]

/-- The vector holds the list in reverse if its length fits the index type. -/
theorem newVector_eq {wrap : Int → Int} {list : List CString} {n : Int} (hn : n = list.length)
    (hwrap : ∀ x : Int, 0 ≤ x → x ≤ list.length + 1 → wrap x = x) :
    newVector wrap n list = some list.reverse := by
  have hsize : wrap (n + 1) = n + 1 := hwrap _ (by omega) (by omega)
  have hreplicate : (n + 1).toNat = list.length + 1 := by omega
  rw [newVector, hsize, if_pos (by omega), hreplicate]
  rw [fillBack_eq (fun x hx hle => hwrap x hx (by omega)) ?_ (by
    rw [List.length_replicate]
    omega)]
  · rw [List.drop_replicate, Nat.add_sub_cancel_left, Option.map_some]
    exact congrArg some (tokensOf_map_some list.reverse)
  · intro hne
    have hpos := List.length_pos_iff.mpr hne
    rw [hn]
    exact hwrap _ (by omega) (by omega)

theorem mapM_id_map_some (tokens : List CString) : (tokens.map some).mapM id = some tokens := by
  rw [List.mapM_map]
  exact List.mapM_pure.trans (congrArg some (List.map_id tokens))

/-- A list that is all there, last string first, becomes the vector of its strings. -/
theorem newVector_of_reverse {wrap : Int → Int} {list : List (Option CString)} {n : Int}
    {tokens : List CString} (hlist : list.reverse = tokens.map some) (hn : n = list.length)
    (hwrap : ∀ x : Int, 0 ≤ x → x ≤ list.length + 1 → wrap x = x) :
    (list.mapM id).bind (newVector wrap n) = some tokens := by
  have hmap : list = tokens.reverse.map some := by
    rw [List.map_reverse, ← hlist, List.reverse_reverse]
  rw [hmap, List.length_map, List.length_reverse] at hn hwrap
  rw [hmap, mapM_id_map_some, Option.bind_some,
    newVector_eq (by rw [hn, List.length_reverse]) (by rwa [List.length_reverse]),
    List.reverse_reverse]

/-! ## The loops cut into pieces -/

theorem nStrdup_eq {str : CString} (h : (str.length : Int) < 2147483647) :
    nStrdup str = some str :=
  if_pos (int32_of_bounds (by omega) (by omega))

theorem nStrndup_eq {str : CString} {n : Nat} (h : (n : Int) < 2147483647) :
    nStrndup str n = some (str.take n) := by
  have hint : int32 ((n : Int) + 1) = n + 1 := int32_of_bounds (by omega) (by omega)
  rw [nStrndup, hint, if_pos ⟨Int.natCast_nonneg n, rfl⟩, Int.toNat_natCast]

namespace Splitter

variable {delimiter : CString}

/-- `n` counts the list. -/
def Counted (st : Splitter) : Prop := st.n = uint32 st.stringList.length

theorem Counted.cut {st : Splitter} (h : st.Counted) (delimiter s : CString) :
    (st.cut delimiter s).Counted := by
  unfold Counted uint32 at *
  simp only [Splitter.cut, List.length_cons, h, uint32]
  omega

/-- A cut at the leftmost occurrence. -/
theorem cut_eq {st : Splitter} {front rest : CString}
    (hremainder : st.remainder = front ++ (delimiter ++ rest))
    (hlength : (st.remainder.length : Int) < 2147483648) (hd : delimiter ≠ []) :
    st.cut delimiter (delimiter ++ rest) =
      ⟨some front :: st.stringList, uint32 (st.n + 1), rest, strstr rest delimiter⟩ := by
  have hpos := List.length_pos_iff.mpr hd
  simp only [hremainder, List.length_append, Nat.cast_add] at hlength
  have hlen : uint32 ((front ++ (delimiter ++ rest)).length - (delimiter ++ rest).length) =
      front.length := by
    rw [List.length_append, Nat.cast_add, add_sub_cancel_right]
    exact uint32_of_bounds (by omega) (by omega)
  have hint : int32 (front.length : Int) = front.length := int32_of_bounds (by omega) (by omega)
  have hdelimiter : (uint32 delimiter.length).toNat = delimiter.length := by
    rw [uint32_of_bounds (by omega) (by omega), Int.toNat_natCast]
  simp only [Splitter.cut, hremainder, hlen, hint, hdelimiter, List.drop_left]
  rw [nStrndup_eq (by omega), List.take_left]

theorem round_some {st : Splitter} {s : CString} (h : st.s = some s) (cuts : Nat) :
    round delimiter (cuts + 1 + 1, st) = some (cuts + 1, st.cut delimiter s) := by
  simp only [round, Nat.add_sub_cancel, Nat.add_eq_zero_iff, one_ne_zero, and_false, if_false, h,
    Option.map_some]

theorem round_none {st : Splitter} (h : st.s = none) (maxTokens : Nat) :
    round delimiter (maxTokens, st) = none := by
  simp only [round, h, Option.map_none, ite_self]

/-- The loop leaves the pieces, the last of them in `remainder`. -/
theorem loop_eq (hd : delimiter ≠ []) (cuts : Nat) {st : Splitter} (hcounted : st.Counted)
    (hs : st.s = strstr st.remainder delimiter)
    (hlength : (st.remainder.length : Int) < 2147483648) :
    let st' := st.loop delimiter (cuts + 1)
    st'.stringList.reverse ++ [some st'.remainder] =
      st.stringList.reverse ++ (pieces delimiter cuts st.remainder).map some ∧ st'.Counted := by
  induction cuts generalizing st with
  | zero =>
      simp only [loop, round, Nat.add_sub_cancel, if_true]
      exact ⟨rfl, hcounted⟩
  | succ cuts ih =>
      rcases pieces_cases delimiter (cuts + 1) st.remainder with ⟨hone, hwhy⟩ |
        ⟨cuts', front, rest, hcuts, hremainder, _, hfound, hcut⟩
      · have hnone : st.s = none := by
          rcases hwhy with hzero | hnone
          · cases hzero
          · exact hs.trans hnone
        simp only [hone, loop, round_none hnone]
        exact ⟨rfl, hcounted⟩
      · obtain rfl := Nat.succ.inj hcuts
        have hsome : st.s = some (delimiter ++ rest) := hs.trans hfound
        have hnext := cut_eq hremainder hlength hd
        have hrest : (rest.length : Int) < 2147483648 := by
          rw [hremainder, List.length_append, List.length_append] at hlength
          omega
        have hloop := @ih (st.cut delimiter (delimiter ++ rest)) (hcounted.cut _ _)
          (by rw [hnext]) (by rwa [hnext])
        rw [loop, round_some hsome, hcut]
        refine ⟨hloop.1.trans ?_, hloop.2⟩
        rw [hnext]
        simp only [List.reverse_cons, List.map_cons, List.append_assoc, List.singleton_append]

end Splitter

theorem tokenLimit_eq (maxTokens : Nat) : tokenLimit maxTokens = tokenLimit maxTokens - 1 + 1 := by
  unfold tokenLimit
  split_ifs
  all_goals omega

theorem nStrdup_cases (str : CString) : nStrdup str = some str ∨ nStrdup str = none := by
  unfold nStrdup
  split_ifs
  · exact Or.inl rfl
  · exact Or.inr rfl

/-- What `n_strsplit` returns: the pieces, if the last of them can be copied. -/
theorem nStrsplit_eq {string delimiter : CString} (hstring : string ≠ []) (hd : delimiter ≠ [])
    (hlength : (string.length : Int) < 2147483648) (maxTokens : Nat) :
    let tokens := pieces delimiter (tokenLimit maxTokens - 1) string
    nStrsplit string delimiter maxTokens =
      (nStrdup (tokens.getLast (pieces_ne_nil _ _ _))).map fun _ => tokens := by
  intro tokens
  have hstart : (Splitter.start string delimiter).Counted := rfl
  have hloop := Splitter.loop_eq hd (tokenLimit maxTokens - 1) hstart rfl hlength
  have htest : (if (Splitter.start string delimiter).s.isSome then
      (Splitter.start string delimiter).loop delimiter (tokenLimit maxTokens)
      else Splitter.start string delimiter) =
      (Splitter.start string delimiter).loop delimiter (tokenLimit maxTokens) := by
    split_ifs with hsome
    · rfl
    · rw [tokenLimit_eq, Splitter.loop,
        Splitter.round_none (Option.not_isSome_iff_eq_none.mp hsome)]
  rw [← tokenLimit_eq] at hloop
  simp only [nStrsplit, htest, if_pos hstring]
  generalize (Splitter.start string delimiter).loop delimiter (tokenLimit maxTokens) = st at hloop
  obtain ⟨hlist, hcounted⟩ := hloop
  have htokens : st.stringList.reverse ++ [some st.remainder] = tokens.map some := by
    rw [hlist]
    rfl
  have hlast : st.remainder = tokens.getLast (pieces_ne_nil _ _ _) := by
    have hlasts := congrArg List.getLast? htokens
    rw [List.getLast?_concat, List.getLast?_map,
      List.getLast?_eq_getLast_of_ne_nil (pieces_ne_nil _ _ _)] at hlasts
    exact Option.some.inj (Option.some.inj hlasts)
  rw [← hlast]
  rcases nStrdup_cases st.remainder with hdup | hdup
  · have hcount : (st.stringList.length : Int) + 1 = tokens.length := by
      have hlengths := congrArg List.length htokens
      rw [List.length_append, List.length_reverse, List.length_map,
        List.length_singleton] at hlengths
      omega
    have hbound : tokens.length ≤ string.length + 1 := length_pieces_le_length hd _ string
    rw [hdup, Option.map_some]
    apply newVector_of_reverse
    · rw [List.reverse_cons, htokens]
    · rw [hcounted, List.length_cons]
      unfold uint32
      omega
    · intro x hx hle
      rw [List.length_cons] at hle
      exact uint32_of_bounds hx (by omega)
  · rw [hdup, Option.map_none]
    rfl

/-! ## The other splitter -/

theorem delimTable_singleton (c b : UInt8) : delimTable [c] b = true ↔ b = c := by
  simp only [delimTable, List.foldl_cons, List.foldl_nil, Function.update_apply]
  split_ifs with hb
  · exact iff_of_true rfl hb
  · exact iff_of_false (by intro h; cases h) hb

/-- The loop leaves the pieces, the last of them from `current` on. -/
theorem setLoop_eq {c : UInt8} {maxTokens : Int} (hmax : maxTokens ≤ 2147483647) (s : CString)
    (st : SetSplitter) (front : CString) (hcurrent : st.current = front ++ s)
    (hcount : st.nTokens = st.tokens.length) (hn : st.nTokens < maxTokens)
    (hfront : st.nTokens + 1 < maxTokens → c ∉ front)
    (hlength : (st.current.length : Int) < 2147483647) :
    let st' := setLoop (delimTable [c]) maxTokens s st
    st'.tokens.reverse ++ [some st'.current] = st.tokens.reverse ++
        (pieces [c] (maxTokens - 1 - st.nTokens).toNat st.current).map some ∧
      st'.nTokens = st'.tokens.length := by
  have hint : int32 (st.nTokens + 1) = st.nTokens + 1 := int32_of_bounds (by omega) (by omega)
  induction s generalizing st front with
  | nil =>
      rw [List.append_nil] at hcurrent
      refine ⟨?_, hcount⟩
      have hone : pieces [c] (maxTokens - 1 - st.nTokens).toNat st.current = [st.current] := by
        by_cases hlast : st.nTokens + 1 < maxTokens
        · rw [hcurrent]
          exact pieces_of_none (search_singleton_none (hfront hlast))
        · have hzero : (maxTokens - 1 - st.nTokens).toNat = 0 := by omega
          rw [hzero, pieces]
      rw [hone]
      rfl
  | cons b s ih =>
      rw [setLoop]
      split_ifs with hcut
      · obtain ⟨hb, hmore⟩ := hcut
        obtain rfl := (delimTable_singleton c b).mp hb
        rw [hint] at hmore
        have hfrontLength : (front.length : Int) + (s.length + 1) < 2147483647 := by
          rw [hcurrent, List.length_append, List.length_cons] at hlength
          omega
        have hlen : int32 ((st.current.length : Int) - (b :: s).length) = front.length := by
          rw [hcurrent, List.length_append, Nat.cast_add, add_sub_cancel_right]
          exact int32_of_bounds (by omega) (by omega)
        have htoken : nStrndup st.current (int32 ((st.current.length : Int) - (b :: s).length)) =
            some front := by
          rw [hlen, nStrndup_eq (by omega), hcurrent, List.take_left]
        have hcuts : (maxTokens - 1 - st.nTokens).toNat =
            (maxTokens - 1 - (st.nTokens + 1)).toNat + 1 := by omega
        rw [htoken, hint]
        have hrest := ih ⟨some front :: st.tokens, st.nTokens + 1, s⟩ []
          rfl (by rw [List.length_cons, hcount, Nat.cast_add, Nat.cast_one]) hmore
          (fun _ => List.not_mem_nil) (by simp only; omega)
          (int32_of_bounds (by simp only; omega) (by simp only; omega))
        refine ⟨hrest.1.trans ?_, hrest.2⟩
        rw [hcuts, hcurrent, pieces_singleton (hfront hmore)]
        simp only [List.reverse_cons, List.map_cons, List.append_assoc, List.singleton_append]
      · refine ih st (front ++ [b]) ?_ hcount hn ?_ hlength hint
        · rw [hcurrent, List.append_assoc, List.singleton_append]
        · intro hmore hmem
          rw [List.mem_append, List.mem_singleton] at hmem
          rcases hmem with hmem | hmem
          · exact hfront hmore hmem
          · exact hcut ⟨(delimTable_singleton c b).mpr hmem.symm, hint.trans_lt hmore⟩

/-- What `n_strsplit_set` returns for one delimiter: the pieces, if their
number and one more fit an `int32_t`. -/
theorem nStrsplitSet_eq {string : CString} (hstring : string ≠ [])
    (hlength : (string.length : Int) < 2147483647) (c : UInt8) {maxTokens : Nat}
    (hmax : maxTokens ≤ 2147483647) :
    let tokens := pieces [c] (tokenLimit maxTokens - 1) string
    nStrsplitSet string [c] maxTokens =
      if tokens.length < 2147483647 then some tokens else none := by
  intro tokens
  have hlimit : (if (maxTokens : Int) < 1 then 2147483647 else (maxTokens : Int)) =
      tokenLimit maxTokens := by
    unfold tokenLimit
    split_ifs
    all_goals omega
  have hlimitPos := tokenLimit_eq maxTokens
  have hlimitLe : tokenLimit maxTokens ≤ 2147483647 := by
    unfold tokenLimit
    split_ifs
    all_goals omega
  have hloop := setLoop_eq (c := c) (Int.ofNat_le.mpr hlimitLe) string
    ⟨[], 0, string⟩ [] rfl rfl (by simp only; omega)
    (fun _ => List.not_mem_nil) hlength
  have hcuts : ((tokenLimit maxTokens : Int) - 1 - 0).toNat = tokenLimit maxTokens - 1 := by omega
  simp only [hcuts, List.reverse_nil, List.nil_append] at hloop
  simp only [nStrsplitSet, hlimit, if_neg hstring]
  generalize setLoop (delimTable [c]) (tokenLimit maxTokens) string ⟨[], 0, string⟩ = st at hloop
  obtain ⟨htokens, hcount⟩ := hloop
  have hlast : st.current ∈ tokens := by
    have hmem : some st.current ∈ tokens.map some := by
      rw [← htokens]
      exact List.mem_append_right _ (List.mem_singleton_self _)
    obtain ⟨token, htoken, heq⟩ := List.mem_map.mp hmem
    rwa [← Option.some.inj heq]
  have hshort : (st.current.length : Int) < 2147483647 := by
    have hle := (List.sublist_flatten_of_mem hlast).length_le
    have hall := length_pieces_eq [c] (tokenLimit maxTokens - 1) string
    have hle' : tokens.flatten.length ≤ string.length := Nat.le.intro (by rw [add_comm]; exact hall)
    omega
  have hint : int32 (st.current.length : Int) = st.current.length :=
    int32_of_bounds (by omega) (by omega)
  have hcopy : nStrndup st.current (int32 st.current.length) = some st.current := by
    rw [hint, nStrndup_eq hshort, List.take_length]
  have hnumber : st.tokens.length + 1 = tokens.length := by
    have hlengths := congrArg List.length htokens
    rwa [List.length_append, List.length_reverse, List.length_map,
      List.length_singleton] at hlengths
  have hnumberLe : tokens.length ≤ tokenLimit maxTokens := by
    rw [hlimitPos]
    exact length_pieces_le _ _ _
  have hn : int32 (st.nTokens + 1) = tokens.length := by
    rw [int32_of_bounds (by omega) (by omega)]
    omega
  rw [hcopy, hn]
  split_ifs with hfew
  · apply newVector_of_reverse
    · rw [List.reverse_cons, htokens]
    · rw [List.length_cons, hnumber]
    · intro x hx hle
      rw [List.length_cons, hnumber] at hle
      exact int32_of_bounds (by omega) (by omega)
  · -- one more pointer than `INT_MAX`
    have hall : tokens.length = 2147483647 := by omega
    have hwrap : ¬(tokens.length : Int) < int32 ((tokens.length : Int) + 1) := by
      rw [hall]
      decide
    cases (some st.current :: st.tokens).mapM id with
    | none => rfl
    | some list => rw [Option.bind_some, newVector, if_neg hwrap]

end SqliteFs
