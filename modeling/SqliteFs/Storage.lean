import SqliteFs.Medium
import SqliteFs.Lib.Versions

/-!
Files on a device that may lose power. A `Store` is a file with every content
it had since it was last synced. A write that fails leaves each sector of its
range old or new and may make the file longer in part; after a loss of power
every sector is one of those the file had since its last sync, and the size is
one of these, or between one of them and that of a longer file that followed.
-/

namespace SqliteFs

open Lib

/-- What is stored of a write that failed: some sectors, and the size that the
file grew to. -/
structure Kept where
  sectors : Int → Bool
  size : Int

/-- What becomes of one call to the device: carried out, or failed with
`SQLITE_IOERR` or `SQLITE_FULL`, some of it stored. -/
inductive IoOutcome where
  | done
  | fails (full : Bool) (kept : Kept)

instance : Inhabited IoOutcome := ⟨.done⟩

namespace ParentFile

variable {f g : ParentFile} {src : Bytes} {off len i size : Int} {kept : Kept}

/-- The file cut off at `size`, or as it is when it is shorter. -/
def cut (f : ParentFile) (size : Int) : ParentFile where
  size := min f.size (max 0 size)
  byte := fun i => if i < size then f.byte i else 0
  size_nonneg := le_min f.size_nonneg (le_max_left 0 size)
  zero_past := by
    intro i hi
    split_ifs with h
    · exact f.zero_past i (by omega)
    · rfl

theorem cut_byte (h : i < size) : (f.cut size).byte i = f.byte i := if_pos h

/-- What a write that failed leaves: the sectors in `kept` are new, as far as the
file has grown; what else it has grown by is zero. -/
def tear (sector : Int) (f : ParentFile) (src : Bytes) (off len : Int) (kept : Kept) :
    ParentFile where
  size := max f.size (min kept.size (off + len))
  byte := fun i =>
    if i < max f.size (min kept.size (off + len)) ∧ kept.sectors (i / sector) then
      overlay f.byte src off len i
    else f.byte i
  size_nonneg := f.size_nonneg.trans (le_max_left _ _)
  zero_past := by
    intro i hi
    rw [if_neg (by omega)]
    exact f.zero_past i ((le_max_left _ _).trans hi)

theorem tear_outside {sector : Int} (h : i < off ∨ off + len ≤ i) :
    (f.tear sector src off len kept).byte i = f.byte i := by
  simp only [tear, overlay_outside h, ite_self]

theorem le_tear_size {sector : Int} : f.size ≤ (f.tear sector src off len kept).size :=
  le_max_left _ _

theorem tear_size {sector : Int} (hend : off + len ≤ f.size) :
    (f.tear sector src off len kept).size = f.size :=
  max_eq_left ((min_le_right _ _).trans hend)

@[simp] theorem put_size : (f.put src off len).size = max f.size (off + len) := rfl

/-- Files of one size with the same bytes inside are the same file. -/
theorem ext_inside (hsize : f.size = g.size) (hbyte : ∀ i, i < f.size → f.byte i = g.byte i) :
    f = g := by
  have hall : f.byte = g.byte := by
    funext i
    rcases lt_or_ge i f.size with hi | hi
    · exact hbyte i hi
    · rw [f.zero_past i hi, g.zero_past i (hsize ▸ hi)]
  cases f
  cases g
  simp_all

end ParentFile

abbrev Store := Versions ParentFile

namespace Store

variable {sector : Int} {s : Store} {f g : ParentFile} {src : Bytes} {off len size i : Int}
  {o : IoOutcome}

def write (sector : Int) (s : Store) (o : IoOutcome) (src : Bytes) (off len : Int) : Store :=
  match o with
  | .done => s.replace (s.now.put src off len)
  | .fails _ kept => s.replace (s.now.tear sector src off len kept)

def truncate (s : Store) (size : Int) : Store := s.replace (s.now.cut size)

/-- `g` may be found in place of the file after power was lost. -/
def Survives (sector : Int) (s : Store) (g : ParentFile) : Prop :=
  (∃ u v, s.Followed u v ∧ u.size ≤ g.size ∧ g.size ≤ v.size) ∧
    ∀ b, ∃ v, s.Holds v ∧ ∀ i, i / sector = b → i < g.size → g.byte i = v.byte i

theorem survives_now (sector : Int) (s : Store) : Survives sector s s.now :=
  ⟨⟨s.now, s.now, Or.inl ⟨rfl, Versions.holds_now⟩, le_rfl, le_rfl⟩,
    fun _ => ⟨s.now, Versions.holds_now, fun _ _ _ => rfl⟩⟩

theorem Survives.settled (h : Survives sector (Versions.settled f) g) : g = f := by
  have hall : ∀ v, (Versions.settled f).Holds v → v = f := Versions.all_settled rfl
  obtain ⟨u, v, huv, hlo, hhi⟩ := h.1
  obtain rfl := hall u huv.holds.1
  obtain rfl := hall v huv.holds.2
  apply ParentFile.ext_inside (le_antisymm hhi hlo)
  intro i hi
  obtain ⟨w, hw, hbyte⟩ := h.2 (i / sector)
  obtain rfl := hall w hw
  exact hbyte i rfl hi

/-- What every version has in a byte inside the file is still there. -/
theorem Survives.byte (h : Survives sector s g) {b : UInt8} (hall : s.All fun v => v.byte i = b)
    (hi : i < g.size) : g.byte i = b := by
  obtain ⟨v, hv, hbyte⟩ := h.2 (i / sector)
  rw [hbyte i rfl hi]
  exact hall v hv

theorem Survives.le_size (h : Survives sector s g) (hall : s.All fun v => size ≤ v.size) :
    size ≤ g.size := by
  obtain ⟨u, v, huv, hlo, -⟩ := h.1
  exact (hall u huv.holds.1).trans hlo

theorem Survives.size_le (h : Survives sector s g) (hall : s.All fun v => v.size ≤ size) :
    g.size ≤ size := by
  obtain ⟨u, v, huv, -, hhi⟩ := h.1
  exact hhi.trans (hall v huv.holds.2)

/-- A file that never grew since it was synced has the size of a version. -/
theorem Survives.size_of (h : Survives sector s g) {p : Int → Prop}
    (hall : s.All fun v => p v.size) (hshrinks : s.Ordered fun v u => v.size ≤ u.size) :
    p g.size := by
  obtain ⟨u, v, huv, hlo, hhi⟩ := h.1
  have hle : v.size ≤ u.size := by
    rcases hshrinks.followed huv with rfl | hless
    · exact le_rfl
    · exact hless
  obtain hsize : v.size = g.size := by omega
  exact hsize ▸ hall v huv.holds.2

/-- All of one sector comes from one version. -/
theorem Survives.sector_of (h : Survives sector s g) (b : Int) {p : ParentFile → Prop}
    (hall : s.All p) :
    ∃ v, p v ∧ ∀ i, i / sector = b → i < g.size → g.byte i = v.byte i := by
  obtain ⟨v, hv, hbyte⟩ := h.2 b
  exact ⟨v, hall v hv, hbyte⟩

/-- A property of every version that a write keeps, whole or torn. -/
theorem write_all {p : ParentFile → Prop} (h : s.All p)
    (hput : o = .done → p (s.now.put src off len))
    (htear : ∀ kept, p (s.now.tear sector src off len kept)) :
    (write sector s o src off len).All p := by
  cases o with
  | done => exact h.replace (hput rfl)
  | fails full kept => exact h.replace (htear kept)

theorem write_outside (h : i < off ∨ off + len ≤ i) :
    (write sector s o src off len).now.byte i = s.now.byte i := by
  cases o with
  | done => exact ParentFile.put_outside h
  | fails full kept => exact ParentFile.tear_outside h

theorem write_size (hend : off + len ≤ s.now.size) :
    (write sector s o src off len).now.size = s.now.size := by
  cases o with
  | done => exact max_eq_left hend
  | fails full kept => exact ParentFile.tear_size hend

end Store

end SqliteFs
