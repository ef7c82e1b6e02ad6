import Mathlib.Data.Finmap
import Mathlib.Tactic

/-!
Programs on a heap of cells. The heap is the finite map of the live blocks; a
program reads and writes through pointers, allocates and frees, and fails where
it touches anything but a live block. `Exchanges` is the frame rule of such
programs: which blocks a program had, which it has left, and that all the others
are as before.
-/

namespace SqliteFs.Lib

/-- The null pointer, or the address of a block. -/
abbrev Ptr := Option Nat

/-- The live blocks, with the cell that each holds. -/
abbrev Heap (κ : Type) := Finmap fun _ : Nat => κ

abbrev Mem (κ : Type) := StateT (Heap κ) Option

/-- An allocator that never fails: where it places the next block, and what an
uninitialised block holds. -/
structure Allocator (κ : Type) where
  place : Heap κ → Nat
  junk : Heap κ → κ
  fresh : ∀ h, place h ∉ h

namespace Mem

variable {κ : Type}

/-- The cell behind a pointer. -/
def load (p : Ptr) : Mem κ κ := fun h =>
  (p.bind fun a => h.lookup a).map fun c => (c, h)

/-- Change the cell behind a pointer. -/
def store (p : Ptr) (f : κ → κ) : Mem κ Unit := fun h =>
  p.bind fun a => (h.lookup a).map fun c => ((), h.insert a (f c))

def malloc (al : Allocator κ) : Mem κ Ptr := fun h =>
  some (some (al.place h), h.insert (al.place h) (al.junk h))

/-- Freeing the null pointer does nothing. -/
def free : Ptr → Mem κ Unit
  | none => fun h => some ((), h)
  | some a => fun h => if a ∈ h then some ((), h.erase a) else none

/-- More than there are live blocks: a walk that meets no block twice takes
fewer steps. -/
def blocks : Mem κ Nat := fun h => some (h.keys.card + 1, h)

variable {α β : Type} {h h' : Heap κ} {a b : Nat} {c : κ}

theorem run_bind {x : Mem κ α} {v : α} (hx : x.run h = some (v, h')) (f : α → Mem κ β) :
    (x >>= f).run h = (f v).run h' := by
  rw [StateT.run_bind, hx]
  rfl

@[simp] theorem load_run (hc : h.lookup a = some c) : (load (some a)).run h = some (c, h) := by
  simp [load, StateT.run, hc]

@[simp] theorem store_run (hc : h.lookup a = some c) (f : κ → κ) :
    (store (some a) f).run h = some ((), h.insert a (f c)) := by
  simp [store, StateT.run, hc]

@[simp] theorem malloc_run (al : Allocator κ) (h : Heap κ) :
    (malloc al).run h = some (some (al.place h), h.insert (al.place h) (al.junk h)) := rfl

@[simp] theorem free_run (ha : a ∈ h) : (free (some a)).run h = some ((), h.erase a) :=
  if_pos ha

@[simp] theorem blocks_run (h : Heap κ) : blocks.run h = some (h.keys.card + 1, h) := rfl

end Mem

section

variable {κ : Type} {h h' h'' : Heap κ} {S S' S'' T : List Nat} {a b : Nat} {c : κ}

theorem Allocator.lookup_place (al : Allocator κ) (h : Heap κ) : h.lookup (al.place h) = none :=
  Finmap.lookup_eq_none.mpr (al.fresh h)

/-- The allocator that places a block above all that are live. -/
def Allocator.above (c : κ) : Allocator κ where
  place := fun h => h.keys.sup id + 1
  junk := fun _ => c
  fresh := by
    intro h hmem
    have hle : h.keys.sup id + 1 ≤ h.keys.sup id :=
      Finset.le_sup (f := id) (Finmap.mem_keys.mpr hmem)
    omega

theorem ne_of_dead (ha : h.lookup a = none) (hb : h.lookup b = some c) : b ≠ a := by
  rintro rfl
  rw [ha] at hb
  cases hb

/-- Distinct live addresses are no more than there are live blocks. -/
theorem length_le_card (hnodup : S.Nodup) (hlive : ∀ a ∈ S, a ∈ h) : S.length ≤ h.keys.card := by
  rw [← List.toFinset_card_of_nodup hnodup]
  apply Finset.card_le_card
  intro a ha
  exact Finmap.mem_keys.mpr (hlive a (List.mem_toFinset.mp ha))

/-- The heap with the cell behind a pointer changed; nothing stands behind the
null pointer. -/
def alter (p : Ptr) (f : κ → κ) (h : Heap κ) : Heap κ :=
  match p with
  | none => h
  | some a =>
    match h.lookup a with
    | none => h
    | some c => h.insert a (f c)

@[simp] theorem alter_none (f : κ → κ) (h : Heap κ) : alter none f h = h := rfl

theorem alter_some (hc : h.lookup a = some c) (f : κ → κ) :
    alter (some a) f h = h.insert a (f c) := by
  simp only [alter, hc]

theorem alter_id {f : κ → κ} (hf : ∀ c, f c = c) (p : Ptr) (h : Heap κ) : alter p f h = h := by
  cases p with
  | none => rfl
  | some a =>
      cases hc : h.lookup a with
      | none => simp only [alter, hc]
      | some c =>
          rw [alter_some hc, hf]
          apply Finmap.ext_lookup
          intro b
          by_cases hb : b = a
          · subst hb
            rw [Finmap.lookup_insert, hc]
          · exact Finmap.lookup_insert_of_ne h hb

theorem lookup_alter (hc : h.lookup a = some c) (f : κ → κ) :
    (alter (some a) f h).lookup a = some (f c) := by
  rw [alter_some hc, Finmap.lookup_insert]

theorem lookup_alter_of_ne {p : Ptr} (hp : p ≠ some b) (f : κ → κ) :
    (alter p f h).lookup b = h.lookup b := by
  cases p with
  | none => rfl
  | some a =>
      cases hc : h.lookup a with
      | none => simp only [alter, hc]
      | some c =>
          rw [alter_some hc, Finmap.lookup_insert_of_ne]
          exact fun heq => hp (congrArg some heq.symm)

/-- The blocks `S` have become the blocks `S'`: those that are new were not
live, those that are gone are live no more, and no other block has changed. -/
structure Exchanges (h : Heap κ) (S : List Nat) (h' : Heap κ) (S' : List Nat) : Prop where
  frame : ∀ b, b ∉ S → b ∉ S' → h'.lookup b = h.lookup b
  fresh : ∀ b ∈ S', b ∉ S → h.lookup b = none
  freed : ∀ b ∈ S, b ∉ S' → h'.lookup b = none

namespace Exchanges

theorem refl (h : Heap κ) (S : List Nat) : Exchanges h S h S :=
  ⟨fun _ _ _ => rfl, fun _ hb hnot => absurd hb hnot, fun _ hb hnot => absurd hb hnot⟩

theorem trans (h₁ : Exchanges h S h' S') (h₂ : Exchanges h' S' h'' S'') :
    Exchanges h S h'' S'' := by
  constructor
  case frame =>
    intro b hb hb''
    by_cases hb' : b ∈ S'
    · rw [h₂.freed b hb' hb'', h₁.fresh b hb' hb]
    · rw [h₂.frame b hb' hb'', h₁.frame b hb hb']
  case fresh =>
    intro b hb'' hb
    by_cases hb' : b ∈ S'
    · exact h₁.fresh b hb' hb
    · rw [← h₁.frame b hb hb', h₂.fresh b hb'' hb']
  case freed =>
    intro b hb hb''
    by_cases hb' : b ∈ S'
    · exact h₂.freed b hb' hb''
    · rw [h₂.frame b hb' hb'', h₁.freed b hb hb']

/-- Only which blocks are listed counts. -/
theorem congr (hex : Exchanges h S h' S') {T' : List Nat} (hS : ∀ b, b ∈ S ↔ b ∈ T)
    (hS' : ∀ b, b ∈ S' ↔ b ∈ T') : Exchanges h T h' T' := by
  constructor
  case frame =>
    intro b hb hb'
    exact hex.frame b (mt (hS b).mp hb) (mt (hS' b).mp hb')
  case fresh =>
    intro b hb' hb
    exact hex.fresh b ((hS' b).mpr hb') (mt (hS b).mp hb)
  case freed =>
    intro b hb hb'
    exact hex.freed b ((hS b).mpr hb) (mt (hS' b).mp hb')

theorem insert (ha : a ∈ S) (c : κ) : Exchanges h S (Finmap.insert a c h) S := by
  constructor
  case frame =>
    intro b hb _
    exact Finmap.lookup_insert_of_ne h (ne_of_mem_of_not_mem ha hb).symm
  case fresh =>
    intro b hb hnot
    exact absurd hb hnot
  case freed =>
    intro b hb hnot
    exact absurd hb hnot

theorem alloc (ha : h.lookup a = none) (c : κ) :
    Exchanges h S (Finmap.insert a c h) (a :: S) := by
  constructor
  case frame =>
    intro b _ hb
    exact Finmap.lookup_insert_of_ne h (List.ne_of_not_mem_cons hb)
  case fresh =>
    intro b hb hnot
    rcases List.mem_cons.mp hb with rfl | hb
    · exact ha
    · exact absurd hb hnot
  case freed =>
    intro b hb hnot
    exact absurd (List.mem_cons_of_mem a hb) hnot

theorem erase (ha : a ∉ S) : Exchanges h (a :: S) (Finmap.erase a h) S := by
  constructor
  case frame =>
    intro b hb _
    exact Finmap.lookup_erase_ne (List.ne_of_not_mem_cons hb)
  case fresh =>
    intro b hb hnot
    exact absurd (List.mem_cons_of_mem a hb) hnot
  case freed =>
    intro b hb hnot
    rcases List.mem_cons.mp hb with rfl | hb
    · exact Finmap.lookup_erase b h
    · exact absurd hb hnot

/-- A block that is live and was not handed over is not handed back. -/
theorem not_mem (hex : Exchanges h S h' S') (hb : b ∉ S) (hc : h.lookup b = some c) :
    b ∉ S' := by
  intro hb'
  rw [hex.fresh b hb' hb] at hc
  cases hc

/-- It is as before. -/
theorem lookup_eq (hex : Exchanges h S h' S') (hb : b ∉ S) (hc : h.lookup b = some c) :
    h'.lookup b = some c :=
  (hex.frame b hb (hex.not_mem hb hc)).trans hc

/-- Blocks that a program does not touch may be counted to its own. -/
theorem weaken (hex : Exchanges h S h' S') (T : List Nat) :
    Exchanges h (S ++ T) h' (S' ++ T) := by
  constructor
  case frame =>
    intro b hb hb'
    rw [List.mem_append, not_or] at hb hb'
    exact hex.frame b hb.1 hb'.1
  case fresh =>
    intro b hb' hb
    rw [List.mem_append, not_or] at hb
    exact hex.fresh b ((List.mem_append.mp hb').resolve_right hb.2) hb.1
  case freed =>
    intro b hb hb'
    rw [List.mem_append, not_or] at hb'
    exact hex.freed b ((List.mem_append.mp hb).resolve_right hb'.2) hb'.1

/-- The block `a` is written to after a new block was allocated, and only the
new one is handed on. -/
theorem allocBehind (hb : h.lookup b = none) (c c' : κ)
    (hex : Exchanges (Finmap.insert a c' (Finmap.insert b c h)) [b] h' S') :
    Exchanges h [a] h' (a :: S') := by
  have hstart : Exchanges h [a] (Finmap.insert a c' (Finmap.insert b c h)) [b, a] :=
    (alloc hb c).trans (insert (List.mem_cons_of_mem b List.mem_cons_self) c')
  apply (hstart.trans (hex.weaken [a])).congr (fun _ => Iff.rfl)
  intro b
  exact (List.perm_append_singleton a _).mem_iff

end Exchanges

end

end SqliteFs.Lib
