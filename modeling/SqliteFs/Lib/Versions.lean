import Mathlib.Tactic

/-!
What a volatile device may still hold. `Versions` keeps the present content
and everything it replaced since the last flush; a property of all of them is
one that no loss of power can take away. `AgreesOff` is the measure of undo
logging: contents agree with a base image outside the blocks for which the
log has the old content.
-/

namespace SqliteFs.Lib

structure Versions (φ : Type*) where
  now : φ
  past : List φ

namespace Versions

variable {φ : Type*} {s : Versions φ} {p q : φ → Prop} {v : φ}

/-- The present content, nothing else pending. -/
def settled (v : φ) : Versions φ := ⟨v, []⟩

def replace (s : Versions φ) (v : φ) : Versions φ := ⟨v, s.now :: s.past⟩

/-- The present content reaches the device. -/
def flush (s : Versions φ) : Versions φ := settled s.now

def Holds (s : Versions φ) (v : φ) : Prop := v = s.now ∨ v ∈ s.past

/-- `p` holds of every version. -/
def All (s : Versions φ) (p : φ → Prop) : Prop := ∀ v, s.Holds v → p v

/-- `v` is a version, and `u` is the same or an earlier one. -/
def Followed (s : Versions φ) (u v : φ) : Prop :=
  u = v ∧ s.Holds v ∨ [v, u].Sublist (s.now :: s.past)

/-- `r` relates every version to all earlier ones. -/
def Ordered (s : Versions φ) (r : φ → φ → Prop) : Prop := (s.now :: s.past).Pairwise r

theorem holds_now : s.Holds s.now := Or.inl rfl

theorem All.now (h : s.All p) : p s.now := h _ holds_now

theorem All.mono (h : s.All p) (himp : ∀ v, p v → q v) : s.All q :=
  fun v hv => himp v (h v hv)

theorem all_settled (h : p v) : (settled v).All p := by
  rintro u (rfl | hu)
  · exact h
  · cases hu

theorem All.replace (h : s.All p) (hv : p v) : (s.replace v).All p := by
  rintro u (rfl | hu)
  · exact hv
  · rcases List.mem_cons.mp hu with rfl | hu
    · exact h.now
    · exact h u (Or.inr hu)

theorem All.flush (h : s.All p) : s.flush.All p := all_settled h.now

theorem Followed.holds {u : φ} (h : s.Followed u v) : s.Holds u ∧ s.Holds v := by
  rcases h with ⟨rfl, hv⟩ | hlist
  · exact ⟨hv, hv⟩
  · have hmem := hlist.subset
    exact ⟨List.mem_cons.mp (hmem (by simp)), List.mem_cons.mp (hmem (by simp))⟩

theorem Ordered.followed {r : φ → φ → Prop} {u : φ} (h : s.Ordered r) (hf : s.Followed u v) :
    u = v ∨ r v u := by
  rcases hf with ⟨rfl, -⟩ | hlist
  · exact Or.inl rfl
  · exact Or.inr (List.pairwise_pair.mp (h.sublist hlist))

theorem ordered_settled (r : φ → φ → Prop) (v : φ) : (settled v).Ordered r :=
  List.pairwise_singleton r v

theorem Ordered.replace {r : φ → φ → Prop} (h : s.Ordered r) (hv : s.All (r v)) :
    (s.replace v).Ordered r :=
  List.pairwise_cons.mpr ⟨fun u hu => hv u (List.mem_cons.mp hu), h⟩

@[simp] theorem now_replace : (s.replace v).now = v := rfl

@[simp] theorem now_flush : s.flush.now = s.now := rfl

@[simp] theorem now_settled : (settled v).now = v := rfl

end Versions

section AgreesOff

variable {κ β ι : Type*} {block : κ → ι} {dom : κ → Prop} {touched touched' : ι → Prop}
  {base m m' : κ → β}

/-- Inside `dom`, `m` agrees with `base` outside the touched blocks. -/
def AgreesOff (block : κ → ι) (dom : κ → Prop) (touched : ι → Prop) (base m : κ → β) : Prop :=
  ∀ k, dom k → ¬touched (block k) → m k = base k

theorem AgreesOff.mono (h : AgreesOff block dom touched base m)
    (himp : ∀ b, touched b → touched' b) : AgreesOff block dom touched' base m :=
  fun k hk hb => h k hk fun hb' => hb (himp _ hb')

/-- Changes inside touched blocks are covered by the log. -/
theorem AgreesOff.write (h : AgreesOff block dom touched base m)
    (hframe : ∀ k, dom k → ¬touched (block k) → m' k = m k) :
    AgreesOff block dom touched base m' :=
  fun k hk hb => (hframe k hk hb).trans (h k hk hb)

/-- Putting the old content of a block back takes it off the touched ones. -/
theorem AgreesOff.restore (h : AgreesOff block dom touched base m) {b : ι}
    (hnew : ∀ k, dom k → block k = b → m' k = base k)
    (hframe : ∀ k, dom k → block k ≠ b → m' k = m k) :
    AgreesOff block dom (fun c => touched c ∧ c ≠ b) base m' := by
  intro k hk hb
  by_cases hkb : block k = b
  · exact hnew k hk hkb
  · rw [hframe k hk hkb]
    exact h k hk fun ht => hb ⟨ht, hkb⟩

end AgreesOff

end SqliteFs.Lib
