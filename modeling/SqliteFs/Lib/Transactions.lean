import SqliteFs.Lib.Run

/-!
What a transactional store is for. It has a committed content and the content
that the open transaction works on; a transaction is committed as a whole or
not at all, and a failure loses nothing that is committed. A content may come
back from a failure with something behind its end; `tail d' d` says that `d'`
is `d` with such a rest.
-/

namespace SqliteFs.Lib

structure Transactions (δ : Type*) where
  committed : δ
  working : δ

namespace Transactions

variable {δ : Type*} {tail : δ → δ → Prop} {s t u : Transactions δ}

inductive Action (δ : Type*) where
  | quiet
  | restart
  | change (f : δ → δ)
  | commit
  | unsure
  | lost

/-- Whether the committed content may become another one. -/
def Action.commits : Action δ → Prop
  | .commit | .unsure => True
  | .quiet | .restart | .change _ | .lost => False

def begun (d : δ) : Transactions δ := ⟨d, d⟩

inductive Step (tail : δ → δ → Prop) :
    Transactions δ → Action δ → Transactions δ → Prop where
  | quiet (s : Transactions δ) : Step tail s .quiet s
  | restart (s : Transactions δ) : Step tail s .restart (begun s.committed)
  | change (s : Transactions δ) (f : δ → δ) :
      Step tail s (.change f) ⟨s.committed, f s.working⟩
  | commit (s : Transactions δ) : Step tail s .commit (begun s.working)
  | kept (s : Transactions δ) : Step tail s .unsure s
  | done (s : Transactions δ) {d : δ} (h : tail d s.working) : Step tail s .unsure (begun d)
  | lost (s : Transactions δ) {d : δ} (h : tail d s.committed) : Step tail s .lost (begun d)

inductive Steps (tail : δ → δ → Prop) :
    Transactions δ → List (Action δ) → Transactions δ → Prop where
  | nil (s : Transactions δ) : Steps tail s [] s
  | cons {s t u : Transactions δ} {a : Action δ} {actions : List (Action δ)}
      (hstep : Step tail s a t) (hrest : Steps tail t actions u) : Steps tail s (a :: actions) u

section Tail

variable (hrefl : ∀ d, tail d d) (htrans : ∀ a b c, tail a b → tail b c → tail a c)
include hrefl

/-- Only a commit changes what is committed. -/
theorem Step.committed {a : Action δ} (h : Step tail s a t) (ha : ¬a.commits) :
    tail t.committed s.committed := by
  cases h with
  | quiet => exact hrefl _
  | restart => exact hrefl _
  | change _ => exact hrefl _
  | commit => exact absurd trivial ha
  | kept => exact absurd trivial ha
  | done _ => exact absurd trivial ha
  | lost htail => exact htail

/-- A step that may commit publishes the working content or leaves things as
they are. -/
theorem Step.published {a : Action δ} (h : Step tail s a t) :
    tail t.committed s.committed ∨ a.commits ∧ tail t.committed s.working := by
  cases h with
  | quiet => exact Or.inl (hrefl _)
  | restart => exact Or.inl (hrefl _)
  | change _ => exact Or.inl (hrefl _)
  | commit => exact Or.inr ⟨trivial, hrefl _⟩
  | kept => exact Or.inl (hrefl _)
  | done htail => exact Or.inr ⟨trivial, htail⟩
  | lost htail => exact Or.inl htail

include htrans

/-- Without a commit the committed content stays, whatever else happens. -/
theorem Steps.durable {actions : List (Action δ)} (h : Steps tail s actions t)
    (hnone : ∀ a ∈ actions, ¬a.commits) : tail t.committed s.committed := by
  induction h with
  | nil _ => exact hrefl _
  | @cons s t u a actions hstep _ ih =>
      have hfirst := hstep.committed hrefl (hnone a List.mem_cons_self)
      have hrest := ih fun b hb => hnone b (List.mem_cons_of_mem a hb)
      exact htrans _ _ _ hrest hfirst

/-- The committed content is the one it began with, or one that a transaction
had when it was committed. -/
theorem Steps.atomic {actions : List (Action δ)} (h : Steps tail s actions t) :
    tail t.committed s.committed ∨ ∃ first a rest u, actions = first ++ a :: rest ∧ a.commits ∧
      Steps tail s first u ∧ tail t.committed u.working := by
  induction h with
  | nil _ => exact Or.inl (hrefl _)
  | @cons s t v a actions hstep hrest ih =>
      rcases ih with hkept | ⟨first, b, rest, u, rfl, hb, hfirst, htail⟩
      · rcases hstep.published hrefl with hold | ⟨ha, hnew⟩
        · exact Or.inl (htrans _ _ _ hkept hold)
        · exact Or.inr ⟨[], a, actions, s, rfl, ha, .nil s, htrans _ _ _ hkept hnew⟩
      · exact Or.inr ⟨a :: first, b, rest, u, rfl, hb, .cons hstep hfirst, htail⟩

end Tail

end Transactions

/-- A system whose allowed steps are matched by actions of a transactional
store: so are its runs. -/
theorem Run.transactions {σ ε δ : Type*} {step : σ → ε → Option σ} {allowed : σ → ε → Prop}
    {tail : δ → δ → Prop} {action : ε → Transactions.Action δ} {rel : σ → Transactions δ → Prop}
    (hstep : ∀ s e t d, rel s d → allowed s e → step s e = some t →
      ∃ d', Transactions.Step tail d (action e) d' ∧ rel t d')
    {s t : σ} {es : List ε} (hrun : Run step allowed s es t) {d : Transactions δ} (hrel : rel s d) :
    ∃ d', Transactions.Steps tail d (es.map action) d' ∧ rel t d' := by
  induction hrun generalizing d with
  | nil _ => exact ⟨d, .nil d, hrel⟩
  | cons hallowed hone _ ih =>
      obtain ⟨d₁, hfirst, hrel₁⟩ := hstep _ _ _ d hrel hallowed hone
      obtain ⟨d₂, hrest, hrel₂⟩ := ih hrel₁
      exact ⟨d₂, .cons hfirst hrest, hrel₂⟩

end SqliteFs.Lib
