import SqliteFs.Lib.FaultyProgram

/-!
Programs on a device that does what it is asked. `Prog.upon o` is the weakest
precondition for the one stream in which every outcome is `o`. A program is
`Steady` if it then ends regularly from every state and keeps what is observed
of it; the rules put such programs together without looking at their states.
-/

namespace SqliteFs.Lib.Prog

variable {ω σ ε α β κ : Type}

/-- The program meets its postconditions when each of its steps has the outcome `o`. -/
def upon (o : ω) (m : Prog ω σ ε α) (Q : α → σ → Prop) (E : ε → σ → Prop) (s : σ) : Prop :=
  ∃ r t, m s (fun _ => o) = (r, t, fun _ => o) ∧ Ends Q E (r, t)

/-- From every state the program ends regularly and keeps `obs`. -/
def Steady (o : ω) (obs : σ → κ) (m : Prog ω σ ε α) : Prop :=
  ∀ s, upon o m (fun _ t => obs t = obs s) (fun _ _ => False) s

variable {o : ω} {m : Prog ω σ ε α} {f : α → Prog ω σ ε β} {Q Q' : α → σ → Prop}
  {R : β → σ → Prop} {E E' : ε → σ → Prop} {s : σ} {obs : σ → κ}

theorem upon_mono (h : upon o m Q E s) (hQ : ∀ a t, Q a t → Q' a t)
    (hE : ∀ e t, E e t → E' e t) : upon o m Q' E' s := by
  obtain ⟨r, t, hrun, hends⟩ := h
  exact ⟨r, t, hrun, hends.mono hQ hE⟩

/-- A program that cannot fail has nothing to show for an end by error. -/
theorem upon_ok (h : upon o m Q (fun _ _ => False) s) (hQ : ∀ a t, Q a t → Q' a t) :
    upon o m Q' E s :=
  upon_mono h hQ fun _ _ => False.elim

theorem upon_pure {a : α} (h : Q a s) : upon o (pure a : Prog ω σ ε α) Q E s :=
  ⟨.ok a, s, rfl, h⟩

theorem upon_bind (h : upon o m (fun a t => upon o (f a) R E t) E s) :
    upon o (m >>= f) R E s := by
  obtain ⟨r, t, hrun, hends⟩ := h
  cases r with
  | ok a =>
      obtain ⟨r', u, hnext, hends'⟩ := hends
      refine ⟨r', u, ?_, hends'⟩
      simp only [Bind.bind, hrun]
      exact hnext
  | error e =>
      refine ⟨.error e, t, ?_, hends⟩
      simp only [Bind.bind, hrun]

theorem upon_map {g : α → β} (h : upon o m (fun a => R (g a)) E s) : upon o (g <$> m) R E s :=
  upon_bind (upon_mono h (fun _ _ hR => upon_pure hR) fun _ _ => id)

theorem upon_state {Q : σ → σ → Prop} (h : Q s s) : upon o (state : Prog ω σ ε σ) Q E s :=
  ⟨.ok s, s, rfl, h⟩

theorem upon_modify {g : σ → σ} {Q : Unit → σ → Prop} (h : Q () (g s)) :
    upon o (modify g : Prog ω σ ε Unit) Q E s :=
  ⟨.ok (), g s, rfl, h⟩

theorem upon_fail {e : ε} (h : E e s) : upon o (fail e : Prog ω σ ε α) Q E s :=
  ⟨.error e, s, rfl, h⟩

theorem upon_step {g : ω → σ → Except ε α × σ} (h : Ends Q E (g o s)) : upon o (step g) Q E s :=
  ⟨(g o s).1, (g o s).2, rfl, h⟩

theorem upon_attempt {Q : Except ε α → σ → Prop}
    (h : upon o m (fun a => Q (.ok a)) (fun e => Q (.error e)) s) : upon o (attempt m) Q E s := by
  obtain ⟨r, t, hrun, hends⟩ := h
  refine ⟨.ok r, t, ?_, ?_⟩
  · simp only [attempt, hrun]
    cases r with
    | ok a => rfl
    | error e => rfl
  · cases r with
    | ok a => exact hends
    | error e => exact hends

theorem upon_whenever {c : Prop} [Decidable c] {m : Prog ω σ ε Unit} {Q : Unit → σ → Prop}
    (hpos : c → upon o m Q E s) (hneg : ¬c → Q () s) : upon o (whenever c m) Q E s := by
  unfold whenever
  split_ifs with hc
  · exact hpos hc
  · exact upon_pure (hneg hc)

theorem upon_ite {c : Prop} [Decidable c] {m' : Prog ω σ ε α} (hpos : c → upon o m Q E s)
    (hneg : ¬c → upon o m' Q E s) : upon o (if c then m else m') Q E s := by
  split_ifs with hc
  · exact hpos hc
  · exact hneg hc

/-- A run in which nothing fails ends as the program does upon `o`. -/
theorem upon.exec_ok (h : upon o m Q (fun _ _ => False) s) :
    ∃ a t, m.exec s (fun _ => o) = (.ok a, t) ∧ Q a t := by
  obtain ⟨r, t, hrun, hends⟩ := h
  cases r with
  | ok a => exact ⟨a, t, by rw [exec, hrun], hends⟩
  | error e => exact hends.elim

/-! ## Steady programs -/

namespace Steady

theorem upon (h : Steady o obs m) (hQ : ∀ a t, obs t = obs s → Q a t) : upon o m Q E s :=
  upon_ok (h s) hQ

theorem pure (a : α) : Steady o obs (Pure.pure a : Prog ω σ ε α) := fun _ => upon_pure rfl

theorem bind (hm : Steady o obs m) (hf : ∀ a, Steady o obs (f a)) :
    Steady o obs (m >>= f) := by
  intro s
  apply upon_bind
  apply hm.upon
  intro a t ht
  exact (hf a).upon fun b u hu => hu.trans ht

/-- What is attempted does not fail, so the error branch is not taken. -/
theorem attempt {f : Except ε α → Prog ω σ ε β} (hm : Steady o obs m)
    (hf : ∀ a, Steady o obs (f (.ok a))) : Steady o obs (attempt m >>= f) := by
  intro s
  apply upon_bind
  apply upon_attempt
  apply hm.upon
  intro a t ht
  exact (hf a).upon fun b u hu => hu.trans ht

theorem state : Steady o obs (state : Prog ω σ ε σ) := fun _ => upon_state rfl

theorem map {g : α → β} (hm : Steady o obs m) : Steady o obs (g <$> m) :=
  fun _ => upon_map (hm.upon fun _ _ => id)

theorem modify {g : σ → σ} (h : ∀ s, obs (g s) = obs s) :
    Steady o obs (modify g : Prog ω σ ε Unit) :=
  fun s => upon_modify (h s)

theorem whenever {c : Prop} [Decidable c] {m : Prog ω σ ε Unit} (hm : Steady o obs m) :
    Steady o obs (whenever c m) :=
  fun s => upon_whenever (fun _ => hm s) fun _ => rfl

theorem ite {c : Prop} [Decidable c] {m' : Prog ω σ ε α} (hm : Steady o obs m)
    (hm' : Steady o obs m') : Steady o obs (if c then m else m') :=
  fun s => upon_ite (fun _ => hm s) fun _ => hm' s

/-- A step that is carried out. -/
theorem step {g : ω → σ → Except ε α × σ} (h : ∀ s, ∃ a t, g o s = (.ok a, t) ∧ obs t = obs s) :
    Steady o obs (step g) := by
  intro s
  obtain ⟨a, t, hg, hobs⟩ := h s
  apply upon_step
  rw [hg]
  exact hobs

/-- To keep more is to keep less. -/
theorem weaken {κ' : Type} {obs' : σ → κ'} (hm : Steady o obs m)
    (h : ∀ s t, obs s = obs t → obs' s = obs' t) : Steady o obs' m :=
  fun s => hm.upon fun _ t ht => h t s ht

end Steady

end SqliteFs.Lib.Prog
