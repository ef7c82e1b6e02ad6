import Mathlib.Tactic

/-!
Cutting a sequence at the occurrences of a delimiter. `search` finds the
leftmost occurrence, `pieces` cuts there and goes on behind it, at most a given
number of times. The pieces joined by the delimiter give back the sequence, and
`Leftmost` says of any tokens that each cut between them is at the leftmost
occurrence in what was left.
-/

namespace SqliteFs.Lib

variable {α : Type*} [DecidableEq α]

/-- The rest of the sequence from the leftmost occurrence of `d` on. -/
def search (d : List α) : List α → Option (List α)
  | [] => if d <+: [] then some [] else none
  | a :: s => if d <+: a :: s then some (a :: s) else search d s

/-- Cut at the first occurrences of `d`, at most `cuts` of them. -/
def pieces (d : List α) : Nat → List α → List (List α)
  | 0, s => [s]
  | cuts + 1, s =>
    match search d s with
    | none => [s]
    | some t => s.take (s.length - t.length) :: pieces d cuts (t.drop d.length)

/-- Every cut between the tokens is at the leftmost occurrence of `d`. -/
def Leftmost (d : List α) : List (List α) → Prop
  | token :: next :: rest =>
    (∀ j < token.length, ¬d <+: (d.intercalate (token :: next :: rest)).drop j) ∧
      Leftmost d (next :: rest)
  | _ => True

variable {d s t : List α} {cuts : Nat}

/-- What is found is a suffix that starts with `d`, and no longer one does. -/
theorem search_some (h : search d s = some t) :
    ∃ front, s = front ++ t ∧ d <+: t ∧ ∀ j < front.length, ¬d <+: s.drop j := by
  induction s with
  | nil =>
      simp only [search] at h
      split_ifs at h with hd
      obtain rfl := Option.some.inj h
      exact ⟨[], rfl, hd, fun j hj => by cases hj⟩
  | cons a s ih =>
      simp only [search] at h
      split_ifs at h with hd
      · obtain rfl := Option.some.inj h
        exact ⟨[], rfl, hd, fun j hj => by cases hj⟩
      · obtain ⟨front, hs, ht, hfirst⟩ := ih h
        refine ⟨a :: front, by rw [hs, List.cons_append], ht, ?_⟩
        intro j hj
        cases j with
        | zero => exact hd
        | succ j => exact hfirst j (Nat.lt_of_succ_lt_succ hj)

theorem search_eq_none_iff : search d s = none ↔ ¬d <:+: s := by
  induction s with
  | nil => simp only [search, ite_eq_right_iff, reduceCtorEq, imp_false, List.prefix_nil,
      List.infix_nil]
  | cons a s ih =>
      rw [List.infix_cons_iff, search]
      split_ifs with hd
      · simp [hd]
      · simp [hd, ih]

theorem pieces_ne_nil (d : List α) (cuts : Nat) (s : List α) : pieces d cuts s ≠ [] := by
  cases cuts with
  | zero => exact List.cons_ne_nil s []
  | succ cuts =>
      rw [pieces]
      cases search d s with
      | none => exact List.cons_ne_nil s []
      | some t => exact List.cons_ne_nil _ _

theorem pieces_of_none (h : search d s = none) : pieces d cuts s = [s] := by
  cases cuts with
  | zero => rfl
  | succ cuts => rw [pieces, h]

theorem pieces_of_some {front : List α} (h : search d (front ++ t) = some t) (cuts : Nat) :
    pieces d (cuts + 1) (front ++ t) = front :: pieces d cuts (t.drop d.length) := by
  simp only [pieces, h, List.length_append, Nat.add_sub_cancel, List.take_left']

/-- Either nothing is cut, or there is a first cut. -/
theorem pieces_cases (d : List α) (cuts : Nat) (s : List α) :
    pieces d cuts s = [s] ∧ (cuts = 0 ∨ search d s = none) ∨
      ∃ cuts' front rest, cuts = cuts' + 1 ∧ s = front ++ (d ++ rest) ∧
        (∀ j < front.length, ¬d <+: s.drop j) ∧ search d s = some (d ++ rest) ∧
        pieces d cuts s = front :: pieces d cuts' rest := by
  cases cuts with
  | zero => exact Or.inl ⟨rfl, Or.inl rfl⟩
  | succ cuts =>
      cases hs : search d s with
      | none => exact Or.inl ⟨pieces_of_none hs, Or.inr rfl⟩
      | some t =>
          obtain ⟨front, rfl, ⟨rest, rfl⟩, hfirst⟩ := search_some hs
          have hpieces := pieces_of_some hs cuts
          rw [List.drop_left'] at hpieces
          · exact Or.inr ⟨cuts, front, rest, rfl, rfl, hfirst, rfl, hpieces⟩
          · rfl

theorem intercalate_pieces (d : List α) (cuts : Nat) (s : List α) :
    d.intercalate (pieces d cuts s) = s := by
  induction cuts generalizing s with
  | zero => exact List.intercalate_singleton
  | succ cuts ih =>
      rcases pieces_cases d (cuts + 1) s with ⟨hone, _⟩ |
        ⟨cuts', front, rest, hcuts, hs, _, _, hcut⟩
      · rw [hone, List.intercalate_singleton]
      · obtain rfl := Nat.succ.inj hcuts
        rw [hcut, List.intercalate_cons_of_ne_nil (pieces_ne_nil d _ rest), ih, hs,
          List.append_assoc]

theorem leftmost_pieces (d : List α) (cuts : Nat) (s : List α) :
    Leftmost d (pieces d cuts s) := by
  induction cuts generalizing s with
  | zero => trivial
  | succ cuts ih =>
      rcases pieces_cases d (cuts + 1) s with ⟨hone, _⟩ |
        ⟨cuts', front, rest, hcuts, hs, hfirst, _, hcut⟩
      · rw [hone]
        trivial
      · obtain rfl := Nat.succ.inj hcuts
        have hjoin := intercalate_pieces d (cuts + 1) s
        have hrest := ih rest
        rw [hcut] at hjoin ⊢
        obtain ⟨next, tokens, htokens⟩ := List.exists_cons_of_ne_nil (pieces_ne_nil d cuts rest)
        rw [htokens] at hjoin hrest ⊢
        refine ⟨?_, hrest⟩
        rw [hjoin]
        exact hfirst

theorem length_pieces_le (d : List α) (cuts : Nat) (s : List α) :
    (pieces d cuts s).length ≤ cuts + 1 := by
  induction cuts generalizing s with
  | zero => exact le_refl 1
  | succ cuts ih =>
      rcases pieces_cases d (cuts + 1) s with ⟨hone, _⟩ | ⟨cuts', front, rest, hcuts, _, _, _, hcut⟩
      · rw [hone]
        exact Nat.succ_le_succ (Nat.zero_le _)
      · obtain rfl := Nat.succ.inj hcuts
        rw [hcut, List.length_cons]
        exact Nat.succ_le_succ (ih rest)

/-- The last piece contains the delimiter only if all the cuts are used up. -/
theorem length_pieces_of_last (h : d <:+: (pieces d cuts s).getLast (pieces_ne_nil d cuts s)) :
    (pieces d cuts s).length = cuts + 1 := by
  induction cuts generalizing s with
  | zero => rfl
  | succ cuts ih =>
      rcases pieces_cases d (cuts + 1) s with ⟨hone, hwhy⟩ |
        ⟨cuts', front, rest, hcuts, _, _, _, hcut⟩
      · simp only [hone, List.getLast_singleton] at h
        rcases hwhy with hzero | hnone
        · cases hzero
        · exact absurd h (search_eq_none_iff.mp hnone)
      · obtain rfl := Nat.succ.inj hcuts
        simp only [hcut, List.getLast_cons (pieces_ne_nil d cuts rest)] at h
        rw [hcut, List.length_cons, ih h]

omit [DecidableEq α] in
/-- No token but the last one contains the delimiter. -/
theorem Leftmost.not_infix {tokens : List (List α)} (h : Leftmost d tokens) (hd : d ≠ []) :
    ∀ token ∈ tokens.dropLast, ¬d <:+: token := by
  induction tokens with
  | nil => intro token htoken; cases htoken
  | cons first tokens ih =>
      cases tokens with
      | nil => intro token htoken; cases htoken
      | cons next rest =>
          intro token htoken hinside
          rw [List.dropLast_cons_of_ne_nil (List.cons_ne_nil next rest)] at htoken
          rcases List.mem_cons.mp htoken with rfl | htoken
          · obtain ⟨front, back, rfl⟩ := hinside
            have hpos := List.length_pos_iff.mpr hd
            have hlt : front.length < (front ++ d ++ back).length := by
              simp only [List.length_append]
              omega
            apply h.1 front.length hlt
            rw [List.intercalate_cons_cons, List.append_assoc, List.append_assoc, List.append_assoc,
              List.drop_left]
            exact List.prefix_append d _
          · exact ih h.2 token htoken hinside

/-- Every piece but one costs a delimiter. -/
theorem length_pieces_eq (d : List α) (cuts : Nat) (s : List α) :
    ((pieces d cuts s).length - 1) * d.length + (pieces d cuts s).flatten.length = s.length := by
  induction cuts generalizing s with
  | zero => simp [pieces]
  | succ cuts ih =>
      rcases pieces_cases d (cuts + 1) s with ⟨hone, _⟩ |
        ⟨cuts', front, rest, hcuts, hs, _, _, hcut⟩
      · rw [hone]
        simp
      · obtain rfl := Nat.succ.inj hcuts
        have hrest := ih rest
        obtain ⟨n, hn⟩ := Nat.exists_eq_succ_of_ne_zero
          (List.length_pos_iff.mpr (pieces_ne_nil d cuts rest)).ne'
        rw [hcut, hs]
        simp only [List.length_cons, List.flatten_cons, List.length_append, hn,
          Nat.succ_sub_one, Nat.succ_mul] at *
        omega

/-- Cuts cannot outnumber the elements if the delimiter has one. -/
theorem length_pieces_le_length (hd : d ≠ []) (cuts : Nat) (s : List α) :
    (pieces d cuts s).length ≤ s.length + 1 := by
  have hlength := length_pieces_eq d cuts s
  have hmul : (pieces d cuts s).length - 1 ≤ ((pieces d cuts s).length - 1) * d.length :=
    Nat.le_mul_of_pos_right _ (List.length_pos_iff.mpr hd)
  omega

/-- A piece is no longer than the sequence. -/
theorem length_le_of_mem_pieces {token : List α} (h : token ∈ pieces d cuts s) :
    token.length ≤ s.length := by
  have hle := (List.sublist_flatten_of_mem h).length_le
  have hall := length_pieces_eq d cuts s
  omega

/-- If there is a cut, every piece is shorter than the sequence. -/
theorem pieces_eq_singleton_or_shorter (hd : d ≠ []) (cuts : Nat) (s : List α) :
    pieces d cuts s = [s] ∧ (cuts = 0 ∨ search d s = none) ∨
      cuts ≠ 0 ∧ search d s ≠ none ∧ ∀ token ∈ pieces d cuts s, token.length < s.length := by
  rcases pieces_cases d cuts s with hone | ⟨cuts', front, rest, rfl, hs, _, hfound, hcut⟩
  · exact Or.inl hone
  · right
    have hpos := List.length_pos_iff.mpr hd
    have hlength : s.length = front.length + (d.length + rest.length) := by
      rw [hs, List.length_append, List.length_append]
    refine ⟨Nat.succ_ne_zero cuts', by rw [hfound]; exact Option.some_ne_none _, ?_⟩
    intro token htoken
    rw [hcut] at htoken
    rcases List.mem_cons.mp htoken with rfl | htoken
    · omega
    · have hle := length_le_of_mem_pieces htoken
      omega

/-- An element of the sequence is in the delimiter or in a piece. -/
theorem mem_or_mem_flatten_pieces {x : α} (d : List α) (cuts : Nat) {s : List α} (hx : x ∈ s) :
    x ∈ d ∨ x ∈ (pieces d cuts s).flatten := by
  induction cuts generalizing s with
  | zero =>
      right
      rwa [pieces, List.flatten_singleton]
  | succ cuts ih =>
      rcases pieces_cases d (cuts + 1) s with ⟨hone, _⟩ |
        ⟨cuts', front, rest, hcuts, hs, _, _, hcut⟩
      · right
        rwa [hone, List.flatten_singleton]
      · obtain rfl := Nat.succ.inj hcuts
        rw [hs, List.mem_append, List.mem_append] at hx
        rw [hcut, List.flatten_cons, List.mem_append]
        rcases hx with hfront | hd | hrest
        · exact Or.inr (Or.inl hfront)
        · exact Or.inl hd
        · exact (ih hrest).imp_right Or.inr

/-! ## One-element delimiters -/

omit [DecidableEq α] in
theorem singleton_prefix_iff {c a : α} {s : List α} : [c] <+: a :: s ↔ c = a := by
  simp [List.cons_prefix_cons]

/-- The first cut at a single element is in front of its first place. -/
theorem search_singleton {c : α} {front : List α} (hfront : c ∉ front) (s : List α) :
    search [c] (front ++ c :: s) = some (c :: s) := by
  induction front with
  | nil => simp [search]
  | cons a front ih =>
      rw [List.mem_cons, not_or] at hfront
      rw [List.cons_append, search, if_neg (by rw [singleton_prefix_iff]; exact hfront.1),
        ih hfront.2]

theorem search_singleton_none {c : α} {s : List α} (hs : c ∉ s) : search [c] s = none := by
  rw [search_eq_none_iff, List.singleton_infix_iff]
  exact hs

theorem pieces_singleton {c : α} {front : List α} (hfront : c ∉ front) (cuts : Nat) (s : List α) :
    pieces [c] (cuts + 1) (front ++ c :: s) = front :: pieces [c] cuts s := by
  rw [pieces_of_some (search_singleton hfront s)]
  rfl

/-- Nothing but delimiters is cut into empty pieces. -/
theorem pieces_replicate (c : α) (cuts k : Nat) :
    pieces [c] cuts (List.replicate (cuts + k) c) =
      List.replicate cuts [] ++ [List.replicate k c] := by
  induction cuts with
  | zero => simp [pieces]
  | succ cuts ih =>
      rw [Nat.add_right_comm, List.replicate_succ]
      have hcut := pieces_singleton (List.not_mem_nil (a := c)) cuts
        (List.replicate (cuts + k) c)
      rw [List.nil_append] at hcut
      rw [hcut, ih, List.replicate_succ, List.cons_append]

end SqliteFs.Lib
