import Mathlib.Tactic

/-!
Programs whose steps may fail. A program takes the outcomes of its steps from
a stream, keeps a state, and ends with a value or an error; the state it had
reached is kept in both cases. `Prog.wp` is its weakest precondition over
every stream of outcomes: one postcondition for a regular end, one for an end
by error. The rules below take a program apart in the order it is written in.
-/

namespace SqliteFs.Lib

/-- A program over states `σ` with outcomes `ω`, errors `ε` and a value in `α`. -/
def Prog (ω σ ε α : Type) : Type := σ → (Nat → ω) → Except ε α × σ × (Nat → ω)

namespace Prog

variable {ω σ ε α β : Type}

instance : Monad (Prog ω σ ε) where
  pure a := fun s io => (.ok a, s, io)
  bind m f := fun s io =>
    match m s io with
    | (.ok a, t, rest) => f a t rest
    | (.error e, t, rest) => (.error e, t, rest)

/-- The result and the state a program ends with. -/
def exec (m : Prog ω σ ε α) (s : σ) (io : Nat → ω) : Except ε α × σ :=
  ((m s io).1, (m s io).2.1)

def state : Prog ω σ ε σ := fun s io => (.ok s, s, io)

def modify (g : σ → σ) : Prog ω σ ε Unit := fun s io => (.ok (), g s, io)

def fail (e : ε) : Prog ω σ ε α := fun s io => (.error e, s, io)

/-- One step that may fail: it uses up one outcome. -/
def step (f : ω → σ → Except ε α × σ) : Prog ω σ ε α :=
  fun s io => ((f (io 0) s).1, (f (io 0) s).2, fun n => io (n + 1))

/-- Run `m` and hand its error to the caller as a value. -/
def attempt (m : Prog ω σ ε α) : Prog ω σ ε (Except ε α) := fun s io =>
  match m s io with
  | (.ok a, t, rest) => (.ok (.ok a), t, rest)
  | (.error e, t, rest) => (.ok (.error e), t, rest)

/-- End as a program run by `attempt` did. -/
def settle : Except ε α → Prog ω σ ε α
  | .ok a => pure a
  | .error e => fail e

/-- Run `m` if `c` holds. -/
def whenever (c : Prop) [Decidable c] (m : Prog ω σ ε Unit) : Prog ω σ ε Unit :=
  if c then m else pure ()

/-- A program that ends regularly ends in `Q`, one that fails ends in `E`. -/
def Ends (Q : α → σ → Prop) (E : ε → σ → Prop) : Except ε α × σ → Prop
  | (.ok a, t) => Q a t
  | (.error e, t) => E e t

/-- From `s` the program meets its postconditions, whatever its steps do. -/
def wp (m : Prog ω σ ε α) (Q : α → σ → Prop) (E : ε → σ → Prop) (s : σ) : Prop :=
  ∀ io, Ends Q E (m.exec s io)

variable {m : Prog ω σ ε α} {f : α → Prog ω σ ε β} {Q Q' : α → σ → Prop} {R : β → σ → Prop}
  {E E' : ε → σ → Prop} {s : σ}

theorem Ends.mono {r : Except ε α × σ} (h : Ends Q E r) (hQ : ∀ a t, Q a t → Q' a t)
    (hE : ∀ e t, E e t → E' e t) : Ends Q' E' r := by
  obtain ⟨r, t⟩ := r
  cases r with
  | ok a => exact hQ a t h
  | error e => exact hE e t h

theorem wp_mono (h : wp m Q E s) (hQ : ∀ a t, Q a t → Q' a t) (hE : ∀ e t, E e t → E' e t) :
    wp m Q' E' s :=
  fun io => (h io).mono hQ hE

theorem wp_pure {a : α} (h : Q a s) : wp (pure a : Prog ω σ ε α) Q E s := fun _ => h

theorem wp_bind (h : wp m (fun a t => wp (f a) R E t) E s) : wp (m >>= f) R E s := by
  intro io
  have hends := h io
  have hexec : (m >>= f).exec s io = match m s io with
      | (.ok a, t, rest) => (f a).exec t rest
      | (.error e, t, _) => (.error e, t) := by
    simp only [exec, bind]
    rcases m s io with ⟨_ | _, _, _⟩
    · rfl
    · rfl
  rw [hexec]
  simp only [exec] at hends
  revert hends
  rcases m s io with ⟨r, t, rest⟩
  cases r with
  | ok a => exact fun hnext => hnext rest
  | error e => exact id

theorem wp_map {g : α → β} (h : wp m (fun a => R (g a)) E s) : wp (g <$> m) R E s :=
  wp_bind (wp_mono h (fun _ _ hR => wp_pure hR) fun _ _ => id)

theorem wp_state {Q : σ → σ → Prop} (h : Q s s) : wp (state : Prog ω σ ε σ) Q E s := fun _ => h

theorem wp_modify {g : σ → σ} {Q : Unit → σ → Prop} (h : Q () (g s)) :
    wp (modify g : Prog ω σ ε Unit) Q E s :=
  fun _ => h

theorem wp_fail {e : ε} (h : E e s) : wp (fail e : Prog ω σ ε α) Q E s := fun _ => h

theorem wp_step {g : ω → σ → Except ε α × σ} (h : ∀ o, Ends Q E (g o s)) :
    wp (step g) Q E s :=
  fun io => h (io 0)

theorem wp_attempt {Q : Except ε α → σ → Prop}
    (h : wp m (fun a => Q (.ok a)) (fun e => Q (.error e)) s) : wp (attempt m) Q E s := by
  intro io
  have hends := h io
  simp only [exec, attempt] at hends ⊢
  revert hends
  rcases m s io with ⟨r, t, rest⟩
  cases r with
  | ok a => exact id
  | error e => exact id

theorem wp_settle {r : Except ε α} (h : Ends Q E (r, s)) :
    wp (settle r : Prog ω σ ε α) Q E s := by
  cases r with
  | ok a => exact wp_pure h
  | error e => exact wp_fail h

theorem wp_whenever {c : Prop} [Decidable c] {m : Prog ω σ ε Unit} {Q : Unit → σ → Prop}
    (hpos : c → wp m Q E s) (hneg : ¬c → Q () s) : wp (whenever c m) Q E s := by
  unfold whenever
  split_ifs with hc
  · exact hpos hc
  · exact wp_pure (hneg hc)

theorem wp_ite {c : Prop} [Decidable c] {m' : Prog ω σ ε α} (hpos : c → wp m Q E s)
    (hneg : ¬c → wp m' Q E s) : wp (if c then m else m') Q E s := by
  split_ifs with hc
  · exact hpos hc
  · exact hneg hc

/-- A program that fails by itself or is cut off: what its run leads to meets
the postconditions that hold from where it starts. -/
theorem wp.exec_ok {a : α} {t : σ} {io : Nat → ω} (h : wp m Q E s)
    (hrun : m.exec s io = (.ok a, t)) : Q a t := by
  have hends := h io
  rwa [hrun] at hends

end Prog

end SqliteFs.Lib
