import Mathlib.Tactic

/-!
Transfers that are cut into pieces. A piece takes some consecutive offsets to
consecutive addresses. Pieces that continue one another place every offset of
their range once, in order. Where all of them follow one address map, the cuts
between them make no difference.
-/

namespace SqliteFs.Lib

/-- The `len` offsets from `first` on. -/
def offsets (first len : Int) : List Int :=
  (List.range len.toNat).map fun k : Nat => first + k

theorem mem_offsets {first len x : Int} : x ∈ offsets first len ↔ first ≤ x ∧ x < first + len := by
  simp only [offsets, List.mem_map, List.mem_range]
  constructor
  · rintro ⟨k, hk, rfl⟩
    omega
  · rintro ⟨hlo, hhi⟩
    exact ⟨(x - first).toNat, by omega, by omega⟩

theorem offsets_append (first : Int) {a b : Int} (ha : 0 ≤ a) (hb : 0 ≤ b) :
    offsets first a ++ offsets (first + a) b = offsets first (a + b) := by
  have hsum : (a + b).toNat = a.toNat + b.toNat := Int.toNat_add ha hb
  unfold offsets
  rw [hsum, List.range_add, List.map_append, List.map_map]
  congr 1
  apply List.map_congr_left
  intro k hk
  simp only [Function.comp, Int.natCast_add, Int.toNat_of_nonneg ha]
  omega

/-- `length` offsets from `first` on, at the addresses from `addr` on. -/
structure Piece where
  first : Int
  addr : Int
  length : Int
  deriving DecidableEq, Repr

namespace Piece

/-- Each offset with its address. -/
def places (p : Piece) : List (Int × Int) :=
  (offsets 0 p.length).map fun k => (p.first + k, p.addr + k)

/-- The addresses are those of a map. -/
def Follows (addr : Int → Int) (p : Piece) : Prop :=
  ∀ k, 0 ≤ k → k < p.length → p.addr + k = addr (p.first + k)

variable {p : Piece}

theorem mem_places {x : Int × Int} :
    x ∈ p.places ↔ ∃ k, (0 ≤ k ∧ k < p.length) ∧ x = (p.first + k, p.addr + k) := by
  simp only [places, List.mem_map, mem_offsets, zero_add, eq_comm (a := x)]

theorem map_fst_places : p.places.map Prod.fst = offsets p.first p.length := by
  simp only [places, offsets, List.map_map, Function.comp_def, zero_add]

theorem Follows.mem_places {addr : Int → Int} (h : p.Follows addr) {x : Int × Int}
    (hx : x ∈ p.places) : x.2 = addr x.1 := by
  obtain ⟨k, ⟨hlo, hhi⟩, rfl⟩ := Piece.mem_places.mp hx
  exact h k hlo hhi

end Piece

/-- Each offset of the pieces with its address. -/
def placed (pieces : List Piece) : List (Int × Int) := pieces.flatMap Piece.places

/-- The pieces are cut from the `rem` offsets from `first` on, one after the other. -/
inductive Consecutive : Int → Int → List Piece → Prop where
  | nil (first : Int) : Consecutive first 0 []
  | cons {p : Piece} {rem : Int} {pieces : List Piece} (hpos : 0 < p.length)
      (hle : p.length ≤ rem)
      (hrest : Consecutive (p.first + p.length) (rem - p.length) pieces) :
      Consecutive p.first rem (p :: pieces)

variable {pieces : List Piece} {first rem : Int}

theorem Consecutive.rem_nonneg (h : Consecutive first rem pieces) : 0 ≤ rem := by
  cases h with
  | nil => exact le_refl 0
  | cons hpos hle hrest => exact hpos.le.trans hle

/-- The pieces place every offset of the range once, in order. -/
theorem Consecutive.covers (h : Consecutive first rem pieces) :
    (placed pieces).map Prod.fst = offsets first rem := by
  induction h with
  | nil first => rfl
  | @cons p rem pieces hpos hle hrest ih =>
      have hjoin := offsets_append p.first hpos.le hrest.rem_nonneg
      rw [add_sub_cancel] at hjoin
      unfold placed at ih ⊢
      rw [List.flatMap_cons, List.map_append, Piece.map_fst_places, ih, hjoin]

theorem Consecutive.mem_offsets (h : Consecutive first rem pieces) {x : Int × Int}
    (hx : x ∈ placed pieces) : first ≤ x.1 ∧ x.1 < first + rem := by
  apply SqliteFs.Lib.mem_offsets.mp
  rw [← h.covers]
  exact List.mem_map_of_mem hx

theorem placed_follows {addr : Int → Int} (h : ∀ p ∈ pieces, p.Follows addr) {x : Int × Int}
    (hx : x ∈ placed pieces) : x.2 = addr x.1 := by
  obtain ⟨p, hp, hplace⟩ := List.mem_flatMap.mp hx
  exact (h p hp).mem_places hplace

end SqliteFs.Lib
