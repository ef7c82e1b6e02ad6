import SqliteFs.JournalFormat

/-!
Database files that can be rolled back to an image. `Undoable base touched f`
says that `f` is the image except for the pages in `touched`, whose old
content must come from the journal, and for pages behind the image. Writing a
touched page keeps it, putting a page of the image back takes the page off,
and so does what a loss of power leaves of a file all of whose versions have it.
-/

namespace SqliteFs

open Lib

variable {G : Geometry}

/-- The page that the byte at `i` belongs to. -/
def pageOfByte (G : Geometry) (i : Int) : Int := i / G.pageSize + 1

theorem pageOfByte_eq_iff {i pgno : Int} :
    pageOfByte G i = pgno ↔ pageOfst G pgno ≤ i ∧ i < pageOfst G pgno + G.pageSize := by
  have hP := G.pageSize_bounds
  have hdiv := Int.emod_add_mul_ediv i G.pageSize
  have hpos : 0 < G.pageSize := by omega
  have hlo := Int.emod_nonneg i hpos.ne'
  have hhi := Int.emod_lt_of_pos i hpos
  simp only [pageOfByte, pageOfst]
  constructor
  · rintro rfl
    rw [add_sub_cancel_right, mul_comm]
    omega
  · rintro ⟨h1, h2⟩
    have hlt : G.pageSize * (i / G.pageSize) < G.pageSize * pgno := by
      calc G.pageSize * (i / G.pageSize) ≤ i := by omega
        _ < (pgno - 1) * G.pageSize + G.pageSize := h2
        _ = G.pageSize * pgno := by ring
    have hgt : G.pageSize * (pgno - 1) < G.pageSize * (i / G.pageSize + 1) := by
      calc G.pageSize * (pgno - 1) = (pgno - 1) * G.pageSize := by ring
        _ ≤ i := h1
        _ < G.pageSize * (i / G.pageSize + 1) := by rw [mul_add, mul_one]; omega
    have := lt_of_mul_lt_mul_left hlt (by omega)
    have := lt_of_mul_lt_mul_left hgt (by omega)
    omega

theorem pageOfst_nonneg {pgno : Int} (h : 1 ≤ pgno) : 0 ≤ pageOfst G pgno :=
  mul_nonneg (by omega) (by have := G.pageSize_bounds; omega)

/-- The end of a page, and whether it is behind `n` pages. -/
theorem pageOfst_end (pgno : Int) : pageOfst G pgno + G.pageSize = G.pageSize * pgno := by
  simp only [pageOfst]
  ring

/-- A number of pages that a database file may have. -/
def ValidPages (G : Geometry) (n : Int) : Prop := n ≤ PAGER_MAX_PGNO ∧ n ≠ G.pagerMjPgno

/-- The size of a file of whole pages. -/
def WholePages (G : Geometry) (size : Int) : Prop := ∃ n, size = G.pageSize * n ∧ ValidPages G n

theorem DbImage.validPages (base : DbImage G) : ValidPages G base.pages :=
  ⟨base.pages_le, base.pages_ne⟩

structure Undoable (base : DbImage G) (touched : Int → Prop) (f : ParentFile) : Prop where
  long : G.pageSize * base.pages ≤ f.size
  agrees : AgreesOff (pageOfByte G) (fun i => 0 ≤ i ∧ i < G.pageSize * base.pages) touched
    base.byte f.byte

/-- The file has exactly the pages of the image. -/
structure DbImage.IsIn (base : DbImage G) (f : ParentFile) : Prop extends
    Undoable base (fun _ => False) f where
  size : f.size = G.pageSize * base.pages

namespace Undoable

variable {base : DbImage G} {touched touched' : Int → Prop} {f g : ParentFile} {src : Bytes}
  {pgno : Int}

theorem mono (h : Undoable base touched f) (himp : ∀ p, touched p → touched' p) :
    Undoable base touched' f :=
  ⟨h.long, h.agrees.mono himp⟩

/-- Change the bytes of one page, which is touched or behind the image. -/
theorem change (h : Undoable base touched f) (hpage : pgno ≤ base.pages → touched pgno)
    (hsize : f.size ≤ g.size)
    (hframe : ∀ i, i < pageOfst G pgno ∨ pageOfst G pgno + G.pageSize ≤ i → g.byte i = f.byte i) :
    Undoable base touched g := by
  refine ⟨h.long.trans hsize, h.agrees.write ?_⟩
  rintro i ⟨-, hi⟩ hnot
  apply hframe
  by_contra hin
  have hpg : pageOfByte G i = pgno := pageOfByte_eq_iff.mpr (by omega)
  refine hnot (hpg ▸ hpage ?_)
  have hend : pageOfst G pgno ≤ i := by omega
  by_contra hlt
  have hP := G.pageSize_bounds
  have : G.pageSize * base.pages ≤ pageOfst G pgno := by
    rw [pageOfst, mul_comm]
    exact mul_le_mul_of_nonneg_right (by omega) (by omega)
  omega

theorem put (h : Undoable base touched f) (hpage : pgno ≤ base.pages → touched pgno) :
    Undoable base touched (f.put src (pageOfst G pgno) G.pageSize) := by
  apply h.change hpage
  · exact le_max_left _ _
  · exact fun i => ParentFile.put_outside

theorem tear {sector : Int} {kept : Kept} (h : Undoable base touched f)
    (hpage : pgno ≤ base.pages → touched pgno) :
    Undoable base touched (f.tear sector src (pageOfst G pgno) G.pageSize kept) := by
  apply h.change hpage
  · exact ParentFile.le_tear_size
  · exact fun i => ParentFile.tear_outside

/-- A write of a page of the database, whole or torn, keeps all versions undoable. -/
theorem write {s : Store} {o : IoOutcome} (h : s.All (Undoable base touched))
    (hpage : pgno ≤ base.pages → touched pgno) :
    (Store.write G.sectorSize s o src (pageOfst G pgno) G.pageSize).All (Undoable base touched) :=
  Store.write_all h (fun _ => h.now.put hpage) fun _ => h.now.tear hpage

/-- Writing the old content of a page takes it off the touched ones. -/
theorem restore (h : Undoable base touched f) (hpgno : pgno ≤ base.pages)
    (hsrc : ∀ k, 0 ≤ k → k < G.pageSize → src k = base.page pgno k) :
    Undoable base (fun p => touched p ∧ p ≠ pgno) (f.put src (pageOfst G pgno) G.pageSize) := by
  have hP := G.pageSize_bounds
  have hend : pageOfst G pgno + G.pageSize ≤ f.size := by
    rw [pageOfst_end]
    exact (mul_le_mul_of_nonneg_left hpgno (by omega)).trans h.long
  have hsize : (f.put src (pageOfst G pgno) G.pageSize).size = f.size := max_eq_left hend
  refine ⟨hsize ▸ h.long, h.agrees.restore ?_ ?_⟩
  · intro i _ hi
    obtain ⟨h1, h2⟩ := pageOfByte_eq_iff.mp hi
    rw [ParentFile.put_inside h1 h2, hsrc _ (by omega) (by omega)]
    simp only [DbImage.page]
    congr 1
    omega
  · intro i _ hi
    apply ParentFile.put_outside
    have := mt pageOfByte_eq_iff.mpr hi
    omega

/-- Writing a page of the image over itself changes nothing, even when the write is torn. -/
theorem rewrite {s : Store} {o : IoOutcome} (h : Undoable base touched s.now)
    (hpgno : pgno ≤ base.pages) (hsrc : ∀ k, 0 ≤ k → k < G.pageSize → src k = base.page pgno k) :
    Undoable base touched
      (Store.write G.sectorSize s o src (pageOfst G pgno) G.pageSize).now := by
  cases o with
  | done => exact (h.restore hpgno hsrc).mono fun p hp => hp.1
  | fails full kept =>
      refine ⟨h.long.trans ParentFile.le_tear_size, ?_⟩
      intro i hi hnot
      simp only [Store.write, Versions.now_replace, ParentFile.tear]
      split_ifs
      · -- a byte of the page is the one that the image has
        rcases em (pageOfst G pgno ≤ i ∧ i < pageOfst G pgno + G.pageSize) with hin | hout
        · rw [overlay_inside hin.1 hin.2, hsrc _ (by omega) (by omega)]
          simp only [DbImage.page]
          congr 1
          omega
        · rw [overlay_outside (by omega)]
          exact h.agrees i hi hnot
      · exact h.agrees i hi hnot

/-- Cutting off what is behind the image. -/
theorem cut (h : Undoable base touched f) :
    Undoable base touched (f.cut (G.pageSize * base.pages)) ∧
      (f.cut (G.pageSize * base.pages)).size = G.pageSize * base.pages := by
  have hP := G.pageSize_bounds
  have hone := base.pages_pos
  have hpos : 0 ≤ G.pageSize * base.pages := mul_nonneg (by omega) (by omega)
  have hsize : (f.cut (G.pageSize * base.pages)).size = G.pageSize * base.pages := by
    simp only [ParentFile.cut, max_eq_right hpos, min_eq_right h.long]
  refine ⟨⟨hsize.ge, h.agrees.write ?_⟩, hsize⟩
  rintro i ⟨-, hi⟩ -
  exact ParentFile.cut_byte hi

/-- What is left after power was lost. -/
theorem survives {sector : Int} {s : Store} (h : s.All (Undoable base touched))
    (hg : Store.Survives sector s g) : Undoable base touched g := by
  have hlong : G.pageSize * base.pages ≤ g.size := hg.le_size (h.mono fun v hv => hv.long)
  refine ⟨hlong, ?_⟩
  intro i hi hnot
  apply hg.byte
  · exact h.mono fun v hv => hv.agrees i hi hnot
  · omega

end Undoable

/-- A database file without anything to undo: it has whole pages, and did not
grow since it was synced. -/
structure AtRest (base : DbImage G) (D : Store) : Prop where
  all : D.All (Undoable base fun _ => False)
  whole : D.All fun v => WholePages G v.size
  shrinks : D.Ordered fun v u => v.size ≤ u.size
  isIn : base.IsIn D.now

namespace AtRest

variable {base : DbImage G} {D : Store}

theorem undoable (h : AtRest base D) (touched : Int → Prop) : D.All (Undoable base touched) :=
  h.all.mono fun _ hv => hv.mono fun _ hp => hp.elim

theorem settled {f : ParentFile} (h : base.IsIn f) : AtRest base (.settled f) :=
  ⟨Versions.all_settled h.toUndoable, Versions.all_settled ⟨_, h.size, base.validPages⟩,
    Versions.ordered_settled _ _, h⟩

theorem flush (h : AtRest base D) : AtRest base D.flush := settled h.isIn

/-- The image in place of the present content, no longer than any version. -/
theorem replace (h : AtRest base D) {f : ParentFile} (hin : base.IsIn f) :
    AtRest base (D.replace f) := by
  refine ⟨h.all.replace hin.toUndoable, h.whole.replace ⟨_, hin.size, base.validPages⟩, ?_, hin⟩
  apply h.shrinks.replace
  exact h.all.mono fun u hu => hin.size.le.trans hu.long

end AtRest

/-- `D` comes from `D₀` by putting pages of the image back, which undoes no more
than was to be undone. -/
structure Undoes (base : DbImage G) (D₀ D : Store) : Prop where
  all : ∀ touched, D₀.All (Undoable base touched) → D.All (Undoable base touched)
  keeps : AtRest base D₀ → AtRest base D

namespace Undoes

variable {base : DbImage G} {D₀ D : Store} {src : Bytes} {pgno : Int} {o : IoOutcome}

theorem refl (D : Store) : Undoes base D D := ⟨fun _ => id, id⟩

theorem flush (h : Undoes base D₀ D) : Undoes base D₀ D.flush :=
  ⟨fun touched hall => (h.all touched hall).flush, fun hrest => (h.keeps hrest).flush⟩

theorem write (h : Undoes base D₀ D) (hpgno : pgno ≤ base.pages)
    (hsrc : ∀ k, 0 ≤ k → k < G.pageSize → src k = base.page pgno k) :
    Undoes base D₀ (Store.write G.sectorSize D o src (pageOfst G pgno) G.pageSize) := by
  have hP := G.pageSize_bounds
  constructor
  · intro touched hall
    have hold := h.all touched hall
    have hnow := Undoable.rewrite (o := o) hold.now hpgno hsrc
    cases o with
    | done => exact hold.replace hnow
    | fails full kept => exact hold.replace hnow
  · intro hrest
    have hnow := h.keeps hrest
    have hin : base.IsIn (Store.write G.sectorSize D o src (pageOfst G pgno) G.pageSize).now := by
      refine ⟨hnow.isIn.toUndoable.rewrite hpgno hsrc, (Store.write_size ?_).trans hnow.isIn.size⟩
      rw [pageOfst_end, hnow.isIn.size]
      exact mul_le_mul_of_nonneg_left hpgno (by omega)
    cases o with
    | done => exact hnow.replace hin
    | fails full kept => exact hnow.replace hin

end Undoes

end SqliteFs
