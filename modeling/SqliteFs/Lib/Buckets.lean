import Mathlib.Tactic

/-!
Merge sort over buckets. Each element starts as a run of its own; two runs of
one length are merged into a run of twice that length, which moves on to the
next bucket, so that the buckets count in binary how much was put into them.
The merge is a parameter and may be undefined on an empty run; `place_filled`
shows that it is never asked for one as long as the last bucket is not reached.
-/

namespace SqliteFs.Lib.Buckets

variable {α : Type*} {merge : List α → List α → Option (List α)} {good : List α → Prop}

/-- Put the run `p` into the first empty bucket, merged with the full ones in
front of it. The last bucket takes what no other does. -/
def place (merge : List α → List α → Option (List α)) :
    List (List α) → List α → Option (List (List α))
  | [], _ => none
  | [last], p => (merge last p).map fun q => [q]
  | a :: b :: rest, p =>
    if a.isEmpty then some (p :: b :: rest)
    else do
      let q ← merge a p
      let bs ← place merge (b :: rest) q
      pure ([] :: bs)

/-- Everything in one run, from the first bucket to the last. -/
def collect (merge : List α → List α → Option (List α)) :
    List α → List (List α) → Option (List α)
  | p, [] => some p
  | p, a :: rest =>
    if a.isEmpty then collect merge p rest
    else if p.isEmpty then collect merge a rest
    else do
      let q ← merge p a
      collect merge q rest

def sort (merge : List α → List α → Option (List α)) (n : Nat) (l : List α) :
    Option (List α) := do
  let bs ← l.foldlM (fun bs x => place merge bs [x]) (List.replicate n [])
  collect merge [] bs

/-- Runs that are not empty can be merged. -/
def Merges (merge : List α → List α → Option (List α)) (good : List α → Prop) : Prop :=
  ∀ a b, a ≠ [] → b ≠ [] → good a → good b → ∃ c, merge a b = some c ∧ good c ∧ c.Perm (a ++ b)

/-- From bucket `k` on, bucket `i` is empty or has a run of length `2 ^ i`. -/
def Filled (good : List α → Prop) : Nat → List (List α) → Prop
  | _, [] => True
  | k, a :: rest => (a = [] ∨ a.length = 2 ^ k ∧ good a) ∧ Filled good (k + 1) rest

theorem filled_replicate (n k : Nat) : Filled good k (List.replicate n []) := by
  induction n generalizing k with
  | zero => trivial
  | succ n ih => exact ⟨Or.inl rfl, ih (k + 1)⟩

/-- What does not reach the last bucket is put away, and nothing else moves. -/
theorem place_filled (hm : Merges merge good) {k : Nat} {bs : List (List α)} {p : List α}
    (hbs : Filled good k bs) (hne : bs ≠ []) (hp : good p) (hlen : p.length = 2 ^ k)
    (hroom : bs.flatten.length + 2 ^ k < 2 ^ (k + bs.length - 1)) :
    ∃ cs, place merge bs p = some cs ∧ Filled good k cs ∧ cs.length = bs.length ∧
      cs.flatten.Perm (p ++ bs.flatten) := by
  induction bs generalizing k p with
  | nil => exact absurd rfl hne
  | cons a rest ih =>
      cases rest with
      | nil =>
          simp only [List.length_singleton, Nat.add_sub_cancel] at hroom
          omega
      | cons b rest =>
          obtain ⟨ha, hrest⟩ := hbs
          rcases ha with rfl | ⟨halen, hagood⟩
          · exact ⟨p :: b :: rest, rfl, ⟨Or.inr ⟨hlen, hp⟩, hrest⟩, rfl, List.Perm.refl _⟩
          · have hpow : 0 < 2 ^ k := Nat.two_pow_pos k
            have hane : a ≠ [] := by
              rintro rfl
              exact absurd halen hpow.ne
            have hpne : p ≠ [] := by
              rintro rfl
              exact absurd hlen hpow.ne
            obtain ⟨q, hmerge, hq, hperm⟩ := hm a p hane hpne hagood hp
            have hqlen : q.length = 2 ^ (k + 1) := by
              rw [hperm.length_eq, List.length_append, halen, hlen, pow_succ]
              omega
            have hexp : k + (a :: b :: rest).length - 1 = k + 1 + (b :: rest).length - 1 := by
              simp only [List.length_cons]
              omega
            have hnext : (b :: rest).flatten.length + 2 ^ (k + 1) <
                2 ^ (k + 1 + (b :: rest).length - 1) := by
              rw [hexp] at hroom
              simp only [List.flatten_cons, List.length_append, halen] at hroom ⊢
              rw [pow_succ]
              omega
            obtain ⟨cs, hplace, hfilled, hlength, hflat⟩ :=
              ih hrest (List.cons_ne_nil b rest) hq hqlen hnext
            refine ⟨[] :: cs, ?_, ⟨Or.inl rfl, hfilled⟩, ?_, ?_⟩
            · have hfull : a.isEmpty = false := by
                rw [Bool.eq_false_iff]
                exact fun hempty => hane (List.isEmpty_iff.mp hempty)
              simp only [place, hfull, Bool.false_eq_true, if_false, hmerge, Option.bind_eq_bind,
                Option.bind_some, hplace]
              rfl
            · rw [List.length_cons, hlength]
              rfl
            · calc ([] :: cs).flatten = cs.flatten := rfl
                List.Perm _ (q ++ (b :: rest).flatten) := hflat
                List.Perm _ (a ++ p ++ (b :: rest).flatten) := hperm.append_right _
                List.Perm _ (p ++ a ++ (b :: rest).flatten) := List.perm_append_comm.append_right _
                _ = p ++ (a :: b :: rest).flatten := by
                  rw [List.append_assoc]
                  rfl

theorem collect_perm (hm : Merges merge good) {k : Nat} {bs : List (List α)} {p : List α}
    (hbs : Filled good k bs) (hp : p = [] ∨ good p) :
    ∃ q, collect merge p bs = some q ∧ (q = [] ∨ good q) ∧ q.Perm (p ++ bs.flatten) := by
  induction bs generalizing k p with
  | nil => exact ⟨p, rfl, hp, by rw [List.flatten_nil, List.append_nil]⟩
  | cons a rest ih =>
      obtain ⟨ha, hrest⟩ := hbs
      rcases ha with rfl | ⟨-, hagood⟩
      · exact ih hrest hp
      · cases a with
        | nil => exact ih hrest hp
        | cons x a =>
            cases p with
            | nil => exact ih hrest (Or.inr hagood)
            | cons y p =>
                have hpgood : good (y :: p) := hp.resolve_left (List.cons_ne_nil y p)
                obtain ⟨c, hmerge, hc, hperm⟩ := hm (y :: p) (x :: a) (List.cons_ne_nil y p)
                  (List.cons_ne_nil x a) hpgood hagood
                obtain ⟨q, hcollect, hq, hflat⟩ := ih hrest (Or.inr hc)
                refine ⟨q, ?_, hq, ?_⟩
                · simp only [collect, List.isEmpty_cons, Bool.false_eq_true, if_false, hmerge,
                    Option.bind_eq_bind, Option.bind_some, hcollect]
                · calc
                    List.Perm q (c ++ rest.flatten) := hflat
                    List.Perm _ (y :: p ++ x :: a ++ rest.flatten) := hperm.append_right _
                    _ = y :: p ++ ((x :: a) :: rest).flatten := by
                      rw [List.append_assoc]
                      rfl

theorem foldlM_place_filled (hm : Merges merge good) (hone : ∀ x, good [x]) {l : List α}
    {bs : List (List α)} (hbs : Filled good 0 bs) (hne : bs ≠ [])
    (hroom : bs.flatten.length + l.length < 2 ^ (bs.length - 1)) :
    ∃ cs, l.foldlM (fun bs x => place merge bs [x]) bs = some cs ∧ Filled good 0 cs ∧
      cs.flatten.Perm (l ++ bs.flatten) := by
  induction l generalizing bs with
  | nil => exact ⟨bs, rfl, hbs, List.Perm.refl _⟩
  | cons x l ih =>
      rw [List.length_cons] at hroom
      obtain ⟨cs, hplace, hcs, hlength, hperm⟩ :=
        place_filled hm hbs hne (hone x) rfl (by rw [pow_zero, zero_add]; omega)
      have hcsne : cs ≠ [] := by
        rintro rfl
        exact hne (List.length_eq_zero_iff.mp hlength.symm)
      have hflat := hperm.length_eq
      rw [List.length_append, List.length_singleton] at hflat
      obtain ⟨ds, hfold, hds, hrest⟩ := ih hcs hcsne (by rw [hlength]; omega)
      refine ⟨ds, ?_, hds, ?_⟩
      · rw [List.foldlM_cons, hplace]
        exact hfold
      · calc
          List.Perm ds.flatten (l ++ cs.flatten) := hrest
          List.Perm _ (l ++ ([x] ++ bs.flatten)) := hperm.append_left l
          List.Perm _ (x :: l ++ bs.flatten) := List.perm_middle

/-- With `n` buckets, fewer than `2 ^ (n - 1)` elements are sorted. -/
theorem sort_perm (hm : Merges merge good) (hone : ∀ x, good [x]) {n : Nat} {l : List α}
    (hn : 0 < n) (hlen : l.length < 2 ^ (n - 1)) :
    ∃ q, sort merge n l = some q ∧ (q = [] ∨ good q) ∧ q.Perm l := by
  have hempty : (List.replicate n ([] : List α)).flatten = [] :=
    List.flatten_replicate_nil
  have hne : List.replicate n ([] : List α) ≠ [] :=
    fun hnil => hn.ne' ((List.replicate_eq_nil_iff []).mp hnil)
  have hroom : (List.replicate n ([] : List α)).flatten.length + l.length <
      2 ^ ((List.replicate n ([] : List α)).length - 1) := by
    rw [hempty, List.length_nil, zero_add, List.length_replicate]
    exact hlen
  obtain ⟨cs, hfold, hcs, hperm⟩ :=
    foldlM_place_filled hm hone (filled_replicate n 0) hne hroom
  obtain ⟨q, hcollect, hq, hall⟩ := collect_perm hm hcs (Or.inl rfl)
  refine ⟨q, ?_, hq, ?_⟩
  · rw [sort, hfold]
    exact hcollect
  · rw [hempty, List.append_nil] at hperm
    exact hall.trans hperm

end SqliteFs.Lib.Buckets
