import SqliteFs.Durable

/-!
The states of the pager between two calls. What a state promises is a
structure over the world: the database file and the journal, the fields of the
pager that belong to them, and the cache. `World.content` is the database as
the pager shows it: the cache where it has a page, the file elsewhere.
-/

namespace SqliteFs

open Lib

variable {G : Geometry} {base : DbImage G} {w : World}

variable (G) in
/-- The two buffers have the same page. -/
def SamePage (a b : Bytes) : Prop := ∀ k, 0 ≤ k → k < G.pageSize → a k = b k

variable (G) in
/-- Page `pgno` of a database file. -/
def filePage (f : ParentFile) (pgno : Int) : Bytes := fun k => f.byte (pageOfst G pgno + k)

variable (G) in
/-- Page `pgno` as the pager shows it. -/
def World.content (w : World) (pgno : Int) : Bytes :=
  ((w.pager.pPCache.page pgno).map PgHdr.pData).getD (filePage G w.fd.now pgno)

theorem World.content_of_some {pgno : Int} {pPg : PgHdr}
    (h : w.pager.pPCache.page pgno = some pPg) : w.content G pgno = pPg.pData := by
  simp only [World.content, h, Option.map_some, Option.getD_some]

theorem World.content_of_none {pgno : Int} (h : w.pager.pPCache.page pgno = none) :
    w.content G pgno = filePage G w.fd.now pgno := by
  simp only [World.content, h, Option.map_none, Option.getD_none]

/-- The data in the cache and the file are the content. -/
theorem World.content_congr {u : World} {pgno : Int} (hfd : u.fd.now = w.fd.now)
    (hdata : (u.pager.pPCache.page pgno).map PgHdr.pData =
      (w.pager.pPCache.page pgno).map PgHdr.pData) : u.content G pgno = w.content G pgno := by
  simp only [World.content, hfd, hdata]

theorem SamePage.refl (a : Bytes) : SamePage G a a := fun _ _ _ => rfl

theorem SamePage.symm {a b : Bytes} (h : SamePage G a b) : SamePage G b a :=
  fun k hlo hhi => (h k hlo hhi).symm

theorem SamePage.trans {a b c : Bytes} (h : SamePage G a b) (h' : SamePage G b c) :
    SamePage G a c :=
  fun k hlo hhi => (h k hlo hhi).trans (h' k hlo hhi)

/-- A page that no write touched is the page of the image. -/
theorem Undoable.filePage {touched : Int → Prop} {f : ParentFile} (h : Undoable base touched f)
    {pgno : Int} (hpos : 1 ≤ pgno) (hle : pgno ≤ base.pages) (hnot : ¬touched pgno) :
    SamePage G (filePage G f pgno) (base.page pgno) := by
  intro k hlo hhi
  have hP := G.pageSize_bounds
  have hofst := pageOfst_nonneg (G := G) hpos
  have hend : pageOfst G pgno + G.pageSize ≤ G.pageSize * base.pages := by
    rw [pageOfst_end]
    exact mul_le_mul_of_nonneg_left hle (by omega)
  have hpage : pageOfByte G (pageOfst G pgno + k) = pgno :=
    pageOfByte_eq_iff.mpr ⟨by omega, by omega⟩
  apply h.agrees _ ⟨by omega, by omega⟩
  rwa [hpage]

/-! ## The cache -/

/-- The page numbers in a cache can be fetched. -/
def PCache.Numbered (G : Geometry) (c : PCache) : Prop :=
  ∀ p pPg, c.page p = some pPg → 1 ≤ p ∧ ValidPages G p

/-- A cache without changes: its pages are those of the file. -/
structure Coherent (G : Geometry) (f : ParentFile) (c : PCache) : Prop where
  number : c.Numbered G
  pDirty : c.pDirty = []
  writeable : ∀ p pPg, c.page p = some pPg → pPg.writeable = false
  data : ∀ p pPg, c.page p = some pPg → SamePage G pPg.pData (filePage G f p)

theorem PCache.not_mem_empty {p : Int} {pPg : PgHdr} (h : PCache.empty.page p = some pPg) :
    False := by
  cases h

theorem coherent_empty (f : ParentFile) : Coherent G f .empty where
  number _ _ h := (PCache.not_mem_empty h).elim
  pDirty := rfl
  writeable _ _ h := (PCache.not_mem_empty h).elim
  data _ _ h := (PCache.not_mem_empty h).elim

theorem PCache.page_truncate_cleanAll {c : PCache} {n p : Int} {pPg : PgHdr}
    (h : (c.sqlite3PcacheCleanAll.sqlite3PcacheTruncate n).page p = some pPg) :
    p ≤ n ∧ ∃ old, c.page p = some old ∧ pPg.pData = old.pData ∧
      (pPg.writeable = true → old.writeable = true ∧ p ∉ c.pDirty) := by
  simp only [PCache.sqlite3PcacheTruncate, PCache.sqlite3PcacheCleanAll] at h
  split_ifs at h with hn hdirty
  · obtain ⟨old, hold, rfl⟩ := Option.map_eq_some_iff.mp h
    exact ⟨by omega, old, hold, rfl, fun hfalse => absurd hfalse Bool.false_ne_true⟩
  · exact ⟨by omega, pPg, h, rfl, fun htrue => ⟨htrue, hdirty⟩⟩

/-- Cleaning and cutting off a cache whose pages up to `n` are those of the file. -/
theorem coherent_truncate {c : PCache} {f : ParentFile} {n : Int} (hnumber : c.Numbered G)
    (hwriteable : ∀ p pPg, c.page p = some pPg → pPg.writeable = true → p ∈ c.pDirty)
    (hdata : ∀ p pPg, c.page p = some pPg → p ≤ n → SamePage G pPg.pData (filePage G f p)) :
    Coherent G f (c.sqlite3PcacheCleanAll.sqlite3PcacheTruncate n) := by
  constructor
  · intro p pPg h
    obtain ⟨-, old, hold, -⟩ := PCache.page_truncate_cleanAll h
    exact hnumber p old hold
  · rfl
  · intro p pPg h
    obtain ⟨-, old, hold, -, hflag⟩ := PCache.page_truncate_cleanAll h
    rw [Bool.eq_false_iff]
    intro htrue
    obtain ⟨hold', hnot⟩ := hflag htrue
    exact hnot (hwriteable p old hold hold')
  · intro p pPg h
    obtain ⟨hle, old, hold, hsame, -⟩ := PCache.page_truncate_cleanAll h
    rw [hsame]
    exact hdata p old hold hle

theorem Coherent.truncate {c : PCache} {f : ParentFile} (h : Coherent G f c) (n : Int) :
    Coherent G f (c.sqlite3PcacheCleanAll.sqlite3PcacheTruncate n) := by
  apply coherent_truncate h.number
  · intro p pPg hp htrue
    rw [h.writeable p pPg hp] at htrue
    cases htrue
  · exact fun p pPg hp _ => h.data p pPg hp

/-! ## States without a transaction -/

/-- `OPEN`: the pager holds no lock and knows nothing of the files. Its cache
has pages only if they are those of the file. -/
structure Unlocked (base : DbImage G) (w : World) : Prop extends Durable base w where
  eState : w.pager.eState = .opened
  errCode : w.pager.errCode = none
  jfdOpen : w.pager.jfdOpen = false
  pInJournal : w.pager.pInJournal = none
  changeCountDone : w.pager.changeCountDone = false
  cache : w.pager.pPCache = .empty ∨
    ¬MagicAt w.jfd.now 0 ∧ Coherent G w.fd.now w.pager.pPCache

/-- `ERROR`: only the files count. -/
structure Broken (base : DbImage G) (w : World) : Prop extends Durable base w where
  eState : w.pager.eState = .error
  errCode : w.pager.errCode.isSome = true

/-- `READER` and `WRITER_LOCKED`: the database file is the image, and the
cache has nothing else. A journal may be left over from a transaction that
never changed the file. -/
structure Reading (base : DbImage G) (w : World) : Prop where
  errCode : w.pager.errCode = none
  dbSize : w.pager.dbSize = base.pages
  pInJournal : w.pager.pInJournal = none
  changeCountDone : w.pager.changeCountDone = false
  atRest : AtRest base w.fd
  cold : w.jfd.All fun v => ¬MagicAt v 0
  absent : w.journalExists = false → w.jfd = .settled .blank
  cache : Coherent G w.fd.now w.pager.pPCache
  state : w.pager.eState = .reader ∧ w.pager.jfdOpen = false ∨
    w.pager.eState = .writerLocked ∧ w.pager.dbOrigSize = base.pages ∧
      w.pager.dbFileSize = base.pages ∧ (w.pager.jfdOpen = true → w.journalExists = true)

theorem Reading.durable (h : Reading base w) : Durable base w :=
  .of_atRest h.atRest h.cold h.absent

/-- A reader sees the image. -/
theorem Reading.content (h : Reading base w) {pgno : Int} (hpos : 1 ≤ pgno)
    (hle : pgno ≤ base.pages) : SamePage G (w.content G pgno) (base.page pgno) := by
  have hfile := h.atRest.isIn.toUndoable.filePage hpos hle not_false
  cases hpage : w.pager.pPCache.page pgno with
  | none =>
      rw [World.content_of_none hpage]
      exact hfile
  | some pPg =>
      rw [World.content_of_some hpage]
      exact (h.cache.data pgno pPg hpage).trans hfile

end SqliteFs
