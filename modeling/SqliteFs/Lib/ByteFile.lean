import Mathlib.Tactic

/-!
Byte files stored inside a larger medium. A medium is a total map from
addresses to cells. `overlay` is what one contiguous write does to it. A
`ByteFile` is the abstract file: its size, and the cells somebody may rely
on. `StoredIn` says that a medium holds such a file through an address map,
and the lemmas below give what a write, a truncation and a frame condition
do to it. `reversed` is the address map of a file whose blocks are laid out
from the end of a medium backwards.
-/

namespace SqliteFs.Lib

variable {α : Type*}

/-- `m` with the `len` cells from `off` on replaced by the first cells of `src`. -/
def overlay (m src : Int → α) (off len : Int) : Int → α :=
  fun i => if off ≤ i ∧ i < off + len then src (i - off) else m i

theorem overlay_inside {m src : Int → α} {off len i : Int} (hlo : off ≤ i)
    (hhi : i < off + len) : overlay m src off len i = src (i - off) :=
  if_pos ⟨hlo, hhi⟩

theorem overlay_outside {m src : Int → α} {off len i : Int}
    (h : i < off ∨ off + len ≤ i) : overlay m src off len i = m i := by
  unfold overlay
  rw [if_neg]
  omega

/-- The abstract file: a size, and for some offsets a promised cell. -/
structure ByteFile (α : Type*) where
  size : Int
  cell : Int → Option α

namespace ByteFile

def empty : ByteFile α := ⟨0, fun _ => none⟩

/-- `len` cells of `src` are stored at `off`, and the file grows to hold them. -/
def write (f : ByteFile α) (src : Int → α) (off len : Int) : ByteFile α :=
  ⟨max f.size (off + len), overlay f.cell (fun k => some (src k)) off len⟩

/-- Everything from `size` on is cut off. -/
def truncate (f : ByteFile α) (size : Int) : ByteFile α :=
  ⟨min f.size size, fun i => if i < size then f.cell i else none⟩

/-- Nothing is promised any more about `len` cells at `off`. -/
def forget (f : ByteFile α) (off len : Int) : ByteFile α :=
  ⟨f.size, overlay f.cell (fun _ => none) off len⟩

/-- `m` holds `f` through `addr`: every promised cell lies inside the file and
is the one at its address. -/
def StoredIn (f : ByteFile α) (m : Int → α) (addr : Int → Int) : Prop :=
  ∀ i v, f.cell i = some v → (0 ≤ i ∧ i < f.size) ∧ m (addr i) = v

variable {f : ByteFile α} {m m' : Int → α} {addr : Int → Int}

theorem empty_storedIn : (empty : ByteFile α).StoredIn m addr := by
  intro i v h
  cases h

/-- A change of the medium away from the file's own addresses keeps it. -/
theorem StoredIn.frame (h : f.StoredIn m addr)
    (hsame : ∀ i, 0 ≤ i → i < f.size → m' (addr i) = m (addr i)) :
    f.StoredIn m' addr := by
  intro i v hv
  obtain ⟨hi, hm⟩ := h i v hv
  exact ⟨hi, (hsame i hi.1 hi.2).trans hm⟩

theorem StoredIn.write (h : f.StoredIn m addr) {src : Int → α} {off len : Int}
    (hoff : 0 ≤ off)
    (hnew : ∀ i, off ≤ i → i < off + len → m' (addr i) = src (i - off))
    (hold : ∀ i, 0 ≤ i → i < f.size → (i < off ∨ off + len ≤ i) →
      m' (addr i) = m (addr i)) :
    (f.write src off len).StoredIn m' addr := by
  intro i v hv
  by_cases hin : off ≤ i ∧ i < off + len
  · have hcell : some (src (i - off)) = some v := by
      simpa [ByteFile.write, overlay_inside hin.1 hin.2] using hv
    refine ⟨⟨by omega, lt_max_of_lt_right hin.2⟩, ?_⟩
    rw [hnew i hin.1 hin.2]
    exact Option.some.inj hcell
  · have hout : i < off ∨ off + len ≤ i := by omega
    have hcell : f.cell i = some v := by
      simpa [ByteFile.write, overlay_outside hout] using hv
    obtain ⟨hi, hm⟩ := h i v hcell
    exact ⟨⟨hi.1, lt_max_of_lt_left hi.2⟩, (hold i hi.1 hi.2 hout).trans hm⟩

theorem StoredIn.truncate (h : f.StoredIn m addr) (size : Int) :
    (f.truncate size).StoredIn m addr := by
  intro i v hv
  by_cases hi : i < size
  · have hcell : f.cell i = some v := by simpa [ByteFile.truncate, hi] using hv
    obtain ⟨hin, hm⟩ := h i v hcell
    exact ⟨⟨hin.1, lt_min hin.2 hi⟩, hm⟩
  · simp [ByteFile.truncate, hi] at hv

theorem StoredIn.forget (h : f.StoredIn m addr) {off len : Int}
    (hold : ∀ i, 0 ≤ i → i < f.size → (i < off ∨ off + len ≤ i) →
      m' (addr i) = m (addr i)) :
    (f.forget off len).StoredIn m' addr := by
  intro i v hv
  by_cases hin : off ≤ i ∧ i < off + len
  · simp [ByteFile.forget, overlay_inside hin.1 hin.2] at hv
  · have hout : i < off ∨ off + len ≤ i := by omega
    have hcell : f.cell i = some v := by
      simpa [ByteFile.forget, overlay_outside hout] using hv
    obtain ⟨hi, hm⟩ := h i v hcell
    exact ⟨hi, (hold i hi.1 hi.2 hout).trans hm⟩

end ByteFile

/-- Block `j / B` of a file stored backwards from `N`: the block before the
blocks with smaller numbers, the place inside the block unchanged. -/
def reversed (B N j : Int) : Int := N - B * (j / B + 1) + j % B

section Reversed

variable {B N : Int}

theorem reversed_emod (hN : B ∣ N) (j : Int) : reversed B N j % B = j % B := by
  obtain ⟨k, rfl⟩ := hN
  have hshape : reversed B (B * k) j = j % B + B * (k - (j / B + 1)) := by
    unfold reversed
    ring
  rw [hshape, Int.add_mul_emod_self_left, Int.emod_emod]

/-- The map is its own inverse when the medium is a whole number of blocks. -/
theorem reversed_reversed (hN : B ∣ N) (j : Int) :
    reversed B N (reversed B N j) = j := by
  have hmod := reversed_emod hN j
  have hrev := Int.emod_add_mul_ediv (reversed B N j) B
  have hj := Int.emod_add_mul_ediv j B
  have hdef : reversed B N j = N - B * (j / B + 1) + j % B := rfl
  change N - B * (reversed B N j / B + 1) + reversed B N j % B = j
  linarith [mul_add B (reversed B N j / B) 1, mul_add B (j / B) 1]

/-- Inside one block the map is a translation. -/
theorem reversed_add (hB : 0 < B) {j k : Int} (hk : 0 ≤ k) (hfit : j % B + k < B) :
    reversed B N (j + k) = reversed B N j + k := by
  have hmod := Int.emod_nonneg j hB.ne'
  have hsum : j + k = j % B + k + B * (j / B) := by
    linarith [Int.emod_add_mul_ediv j B]
  have hdiv : (j + k) / B = j / B := by
    rw [hsum, Int.add_mul_ediv_left _ _ hB.ne', Int.ediv_eq_zero_of_lt (by omega) hfit]
    omega
  have hrem : (j + k) % B = j % B + k := by
    rw [hsum, Int.add_mul_emod_self_left, Int.emod_eq_of_lt (by omega) hfit]
  unfold reversed
  rw [hdiv, hrem]
  ring

end Reversed

end SqliteFs.Lib
