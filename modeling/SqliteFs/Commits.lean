import SqliteFs.Spilling

/-!
The two phases of a commit. The first syncs the journal, writes every dirty
page and syncs the database file, which then holds the new image while the
journal can still undo it; the second deletes the journal.
-/

namespace SqliteFs

open Lib Prog

variable {G : Geometry} {base : DbImage G} {w w₀ : World} {E : Code → World → Prop}
  {segs : List Segment} {cur todo : List Int} {pgno : Int}

/-! ## Writing all dirty pages -/

/-- The pages in `todo` are still to be written to the database file, in which
the database was `w₀` when the journal was synced. -/
structure Flushing (base : DbImage G) (segs : List Segment) (w₀ : World) (todo : List Int)
    (w : World) : Prop extends ClosedJournal base segs w where
  errCode : w.pager.errCode = none
  eState : w.pager.eState = .writerDbmod
  dbSize : w.pager.dbSize = w₀.pager.dbSize
  fdSize : w.fd.now.size = G.pageSize * w.pager.dbFileSize
  base_le : base.pages ≤ w.pager.dbFileSize
  dbFileSize : ValidPages G w.pager.dbFileSize
  undoable : w.fd.All (Undoable base fun p => p ∈ pagesOf segs)
  cache : CacheOk base (pagesOf segs) [] w.fd.now w.pager.pPCache
  todo_dirty : ∀ p ∈ todo, p ∈ w.pager.pPCache.pDirty
  flushed : ∀ p pPg, w.pager.pPCache.page p = some pPg → p ≤ w.pager.dbSize → p ∉ todo →
    SamePage G pPg.pData (filePage G w.fd.now p)
  content : ∀ p, SameButCounter G p (w.content G p) (w₀.content G p)

theorem ClosedJournal.doomed (h : ClosedJournal base segs w) (hcode : w.pager.errCode = none)
    (hstate : w.pager.eState = .writerDbmod ∨ w.pager.eState = .writerFinished)
    (hundoable : w.fd.All (Undoable base fun p => p ∈ pagesOf segs))
    (hnumber : w.pager.pPCache.Numbered G)
    (hwriteable : ∀ p pPg, w.pager.pPCache.page p = some pPg → pPg.writeable = true →
      p ∈ w.pager.pPCache.pDirty)
    (hunlogged : ∀ p pPg, w.pager.pPCache.page p = some pPg → p ≤ base.pages →
      p ∉ pagesOf segs → SamePage G pPg.pData (base.page p)) : Doomed base segs [] w := by
  refine ⟨h.durable hundoable, hcode, Or.inr ⟨hstate, h.ne_nil⟩, h.jfdOpen, h.journalExists,
    h.live, hundoable, fun hnil => absurd hnil h.ne_nil, hnumber, hwriteable, ?_⟩
  intro p pPg hpage hle hnot
  rw [List.append_nil] at hnot
  exact hunlogged p pPg hpage hle hnot

/-- Only the journal and where it ends count. -/
theorem ClosedJournal.frame {u : World} (h : ClosedJournal base segs w) (hjfd : u.jfd = w.jfd)
    (hexists : u.journalExists = w.journalExists)
    (hpager : u.pager.journalHdr = w.pager.journalHdr ∧
      u.pager.journalOff = w.pager.journalOff ∧ u.pager.jfdOpen = w.pager.jfdOpen) :
    ClosedJournal base segs u := by
  obtain ⟨hhdr, hoff, hopen⟩ := hpager
  constructor
  · rw [hjfd]
    exact h.hot
  · rw [hjfd]
    exact h.jfd
  · exact h.ne_nil
  · exact hhdr.trans h.journalHdr
  · exact hoff.trans h.journalOff
  · exact hopen.trans h.jfdOpen
  · exact hexists.trans h.journalExists

/-- A dirty page is not yet in the file, so the cache does not care what is there. -/
theorem CacheOk.put_dirty {pages : List Int} {f : ParentFile} {c : PCache} {d : Bytes}
    (h : CacheOk base pages cur f c) (hmem : pgno ∈ c.pDirty) :
    CacheOk base pages cur (f.put d (pageOfst G pgno) G.pageSize) c := by
  refine ⟨h.number, h.dirty, ?_, h.writeable, h.logged, h.unsynced⟩
  intro p pPg hpage hclean
  have hne : p ≠ pgno := fun heq => hclean (heq ▸ hmem)
  exact (h.clean p pPg hpage hclean).trans (filePage_put_other hne).symm

/-- A dirty page of the database is written. -/
theorem Flushing.write {pPg : PgHdr} {d v : Bytes} (h : Flushing base segs w₀ (pgno :: todo) w)
    (hpage : w.pager.pPCache.page pgno = some pPg) (hd : SameButCounter G pgno d pPg.pData) :
    Flushing base segs w₀ todo { w with
      fd := w.fd.write G.sectorSize .done d (pageOfst G pgno) G.pageSize
      pager := { w.pager with
        pPCache := w.pager.pPCache.withData pgno d
        dbFileSize := max w.pager.dbFileSize pgno
        dbFileVers := v } } := by
  have hmem := h.todo_dirty pgno List.mem_cons_self
  obtain ⟨hpos, hvalid⟩ := h.cache.number pgno pPg hpage
  have hself : (w.pager.pPCache.withData pgno d).page pgno = some { pPg with pData := d } := by
    simp only [PCache.withData, PCache.update, if_true, hpage, Option.map_some]
  have hother : ∀ p, p ≠ pgno →
      (w.pager.pPCache.withData pgno d).page p = w.pager.pPCache.page p :=
    fun p hp => PCache.update_other hp
  have hundoable : (w.fd.write G.sectorSize .done d (pageOfst G pgno) G.pageSize).All
      (Undoable base fun p => p ∈ pagesOf segs) :=
    Undoable.write h.undoable fun hle => h.cache.logged pgno hmem hle
  refine ⟨h.toClosedJournal.frame rfl rfl ⟨rfl, rfl, rfl⟩, h.errCode, h.eState, h.dbSize,
    put_page_size h.fdSize, h.base_le.trans (le_max_left _ _), validPages_max h.dbFileSize hvalid,
    hundoable, (h.cache.modify hmem fun _ => d).put_dirty hmem,
    fun p hp => h.todo_dirty p (List.mem_cons_of_mem _ hp), ?_, ?_⟩
  · intro p q hq hle hnot
    rcases eq_or_ne p pgno with rfl | hne
    · obtain rfl := Option.some.inj (hself.symm.trans hq)
      exact filePage_put_self.symm
    · rw [hother p hne] at hq
      have hold := h.flushed p q hq hle fun hmem => (List.mem_cons.mp hmem).elim hne hnot
      exact hold.trans (filePage_put_other hne).symm
  · intro p
    apply SameButCounter.trans _ (h.content p)
    rcases eq_or_ne p pgno with rfl | hne
    · rw [World.content_of_some hself, World.content_of_some hpage]
      exact hd
    · apply SamePage.sameButCounter
      cases hq : w.pager.pPCache.page p with
      | none =>
          rw [World.content_of_none ((hother p hne).trans hq), World.content_of_none hq]
          exact filePage_put_other hne
      | some q =>
          rw [World.content_of_some ((hother p hne).trans hq), World.content_of_some hq]
          exact SamePage.refl _

/-- A write that failed leaves the transaction to be rolled back. -/
theorem Flushing.torn {pPg : PgHdr} {d v : Bytes} {full : Bool} {kept : Kept}
    (h : Flushing base segs w₀ (pgno :: todo) w)
    (hpage : w.pager.pPCache.page pgno = some pPg) :
    Doomed base segs [] { w with
      fd := w.fd.write G.sectorSize (.fails full kept) d (pageOfst G pgno) G.pageSize
      pager := { w.pager with
        pPCache := w.pager.pPCache.withData pgno d
        dbFileSize := max w.pager.dbFileSize pgno
        dbFileVers := v } } := by
  have hmem := h.todo_dirty pgno List.mem_cons_self
  obtain ⟨hpos, hvalid⟩ := h.cache.number pgno pPg hpage
  have hundoable : (w.fd.write G.sectorSize (.fails full kept) d (pageOfst G pgno) G.pageSize).All
      (Undoable base fun p => p ∈ pagesOf segs) :=
    Undoable.write h.undoable fun hle => h.cache.logged pgno hmem hle
  have hcache := h.cache.modify hmem fun _ => d
  have hclosed : ClosedJournal base segs { w with
      fd := w.fd.write G.sectorSize (.fails full kept) d (pageOfst G pgno) G.pageSize
      pager := { w.pager with
        pPCache := w.pager.pPCache.withData pgno d
        dbFileSize := max w.pager.dbFileSize pgno
        dbFileVers := v } } :=
    h.toClosedJournal.frame rfl rfl ⟨rfl, rfl, rfl⟩
  apply hclosed.doomed h.errCode (Or.inl h.eState) hundoable hcache.number hcache.writeable
  exact fun _ _ hq hle hnot => hcache.unlogged h.undoable.now (fun _ => id) hq hle hnot

/-- The whole list is written, or the transaction is to be rolled back. -/
theorem wp_pagerWritePagelist {Q : Unit → World → Prop} (h : Flushing base segs w₀ todo w)
    (hok : ∀ u, Flushing base segs w₀ [] u → Q () u)
    (herr : ∀ full u, Doomed base segs [] u → E (IoOutcome.code full) u) :
    wp (pagerWritePagelist G todo) Q E w := by
  induction todo generalizing w with
  | nil => exact wp_pure (hok w h)
  | cons pgno todo ih =>
      obtain ⟨pPg, hpage⟩ :=
        Option.isSome_iff_exists.mp (h.cache.dirty pgno (h.todo_dirty pgno List.mem_cons_self))
      apply wp_pagerWritePagelist_cons hpage
      · -- a page that the transaction has cut off
        intro hlt
        apply ih
        refine { h with
          todo_dirty := fun p hp => h.todo_dirty p (List.mem_cons_of_mem _ hp), flushed := ?_ }
        intro p q hq hle hnot
        apply h.flushed p q hq hle
        intro hmem
        rcases List.mem_cons.mp hmem with rfl | hold
        · omega
        · exact hnot hold
      · exact fun _ d v hd => ih (h.write hpage hd)
      · exact fun _ full kept d v _ => herr full _ (h.torn hpage)

/-! ## The first phase -/

/-- All pages of the database are in its file, nothing is dirty. -/
structure Flushed (base : DbImage G) (segs : List Segment) (w₀ w : World) : Prop
    extends ClosedJournal base segs w where
  errCode : w.pager.errCode = none
  eState : w.pager.eState = .writerDbmod
  dbSize : w.pager.dbSize = w₀.pager.dbSize
  fdSize : w.fd.now.size = G.pageSize * w.pager.dbFileSize
  base_le : base.pages ≤ w.pager.dbFileSize
  dbFileSize : ValidPages G w.pager.dbFileSize
  undoable : w.fd.All (Undoable base fun p => p ∈ pagesOf segs)
  number : w.pager.pPCache.Numbered G
  pDirty : w.pager.pPCache.pDirty = []
  clean : ∀ p pPg, w.pager.pPCache.page p = some pPg → pPg.writeable = false
  data : ∀ p pPg, w.pager.pPCache.page p = some pPg → p ≤ w.pager.dbSize →
    SamePage G pPg.pData (filePage G w.fd.now p)
  unlogged : ∀ p pPg, w.pager.pPCache.page p = some pPg → p ≤ base.pages →
    p ∉ pagesOf segs → SamePage G pPg.pData (base.page p)
  content : ∀ p, SameButCounter G p (w.content G p) (w₀.content G p)

theorem Flushed.doomed (h : Flushed base segs w₀ w) : Doomed base segs [] w := by
  apply h.toClosedJournal.doomed h.errCode (Or.inl h.eState) h.undoable h.number _ h.unlogged
  intro p pPg hpage htrue
  rw [h.clean p pPg hpage] at htrue
  cases htrue

theorem PCache.cleanAll_page {c : PCache} {p : Int} {pPg : PgHdr}
    (h : c.sqlite3PcacheCleanAll.page p = some pPg) : ∃ old, c.page p = some old ∧
      pPg.pData = old.pData ∧ (p ∈ c.pDirty → pPg.writeable = false) ∧
      (p ∉ c.pDirty → pPg = old) := by
  simp only [sqlite3PcacheCleanAll] at h
  split_ifs at h with hdirty
  · obtain ⟨old, hold, rfl⟩ := Option.map_eq_some_iff.mp h
    exact ⟨old, hold, rfl, fun _ => rfl, fun hclean => absurd hdirty hclean⟩
  · exact ⟨pPg, h, rfl, fun hmem => absurd hmem hdirty, fun _ => rfl⟩

theorem PCache.cleanAll_data {c : PCache} {p : Int} :
    (c.sqlite3PcacheCleanAll.page p).map PgHdr.pData = (c.page p).map PgHdr.pData := by
  simp only [sqlite3PcacheCleanAll]
  split_ifs
  · rw [Option.map_map]
    rfl
  · rfl

/-- The cache is cleaned when the whole list was written. -/
theorem Flushing.cleanAll (h : Flushing base segs w₀ [] w) : Flushed base segs w₀ { w with
    pager := { w.pager with pPCache := w.pager.pPCache.sqlite3PcacheCleanAll } } := by
  refine ⟨h.toClosedJournal.frame rfl rfl ⟨rfl, rfl, rfl⟩, h.errCode, h.eState, h.dbSize, h.fdSize,
    h.base_le, h.dbFileSize, h.undoable, ?_, rfl, ?_, ?_, ?_, ?_⟩
  · intro p pPg hp
    obtain ⟨old, hold, -⟩ := PCache.cleanAll_page hp
    exact h.cache.number p old hold
  · intro p pPg hp
    obtain ⟨old, hold, -, hdirty, hclean⟩ := PCache.cleanAll_page hp
    rcases em (p ∈ w.pager.pPCache.pDirty) with hmem | hmem
    · exact hdirty hmem
    · rw [hclean hmem, Bool.eq_false_iff]
      exact fun htrue => hmem (h.cache.writeable p old hold htrue)
  · intro p pPg hp hle
    obtain ⟨old, hold, hdata, -⟩ := PCache.cleanAll_page hp
    rw [hdata]
    exact h.flushed p old hold hle List.not_mem_nil
  · intro p pPg hp hle hnot
    obtain ⟨old, hold, hdata, -⟩ := PCache.cleanAll_page hp
    rw [hdata]
    exact h.cache.unlogged h.undoable.now (fun _ => id) hold hle hnot
  · intro p
    have hsame : World.content G { w with
        pager := { w.pager with pPCache := w.pager.pPCache.sqlite3PcacheCleanAll } } p =
          w.content G p :=
      World.content_congr rfl PCache.cleanAll_data
    rw [hsame]
    exact h.content p

/-- The database is the same if its file is. -/
theorem sameContent_file {u : World} (hcache : u.pager.pPCache = w.pager.pPCache)
    (hfile : ∀ p, SamePage G (filePage G u.fd.now p) (filePage G w.fd.now p)) :
    SameContent G w u := by
  intro p
  simp only [World.content, hcache]
  cases w.pager.pPCache.page p with
  | none => exact hfile p
  | some pPg => exact SamePage.refl _

/-- A zero page at the end of the database makes its file longer. -/
theorem Flushed.grow {o : IoOutcome} {n : Int} (h : Flushed base segs w₀ w)
    (hlt : w.pager.dbFileSize < n) :
    (w.fd.write G.sectorSize o (fun _ => 0) (pageOfst G n) G.pageSize).All
      (Undoable base fun p => p ∈ pagesOf segs) := by
  apply Undoable.write h.undoable
  intro hle
  have hbase := h.base_le
  omega

theorem Flushed.grown {n : Int} (h : Flushed base segs w₀ w) (hlt : w.pager.dbFileSize < n)
    (hvalid : ValidPages G n) : Flushed base segs w₀ { w with
      fd := w.fd.write G.sectorSize .done (fun _ => 0) (pageOfst G n) G.pageSize
      pager := { w.pager with dbFileSize := n } } := by
  have hpages : ∀ p, SamePage G
      (filePage G (w.fd.now.put (fun _ => 0) (pageOfst G n) G.pageSize) p)
      (filePage G w.fd.now p) := by
    intro p
    rcases eq_or_ne p n with rfl | hne
    · exact filePage_put_self.trans (filePage_past h.fdSize.le hlt)
    · exact filePage_put_other hne
  have hsize : (w.fd.now.put (fun _ => 0) (pageOfst G n) G.pageSize).size = G.pageSize * n := by
    rw [put_page_size h.fdSize, max_eq_right hlt.le]
  refine ⟨h.toClosedJournal.frame rfl rfl ⟨rfl, rfl, rfl⟩, h.errCode, h.eState, h.dbSize, hsize,
    h.base_le.trans hlt.le, hvalid, h.grow (o := .done) hlt, h.number, h.pDirty, h.clean, ?_,
    h.unlogged, ?_⟩
  · exact fun p pPg hp hle => (h.data p pPg hp hle).trans (hpages p).symm
  · intro p
    have hsame : SameContent G w { w with
        fd := w.fd.write G.sectorSize .done (fun _ => 0) (pageOfst G n) G.pageSize
        pager := { w.pager with dbFileSize := n } } :=
      sameContent_file rfl hpages
    exact (hsame p).sameButCounter.trans (h.content p)

/-- The file is made as long as the database. -/
theorem wp_pagerTruncate_grow {Q : Unit → World → Prop} (h : Flushed base segs w₀ w)
    (hlt : w.pager.dbFileSize < w.pager.dbSize) (hvalid : ValidPages G w.pager.dbSize)
    (hok : ∀ u, Flushed base segs w₀ u → u.pager.dbSize ≤ u.pager.dbFileSize → Q () u)
    (herr : ∀ full u, Doomed base segs [] u → E (IoOutcome.code full) u) :
    wp (pagerTruncate G w.pager.dbSize) Q E w := by
  have hP := G.pageSize_bounds
  have hroom : G.pageSize * w.pager.dbFileSize + G.pageSize ≤ G.pageSize * w.pager.dbSize := by
    calc G.pageSize * w.pager.dbFileSize + G.pageSize = G.pageSize * (w.pager.dbFileSize + 1) := by
          ring
      _ ≤ G.pageSize * w.pager.dbSize := mul_le_mul_of_nonneg_left hlt (by omega)
  have hofst : G.pageSize * w.pager.dbSize - G.pageSize = pageOfst G w.pager.dbSize := by
    rw [← pageOfst_end, add_sub_cancel_right]
  apply wp_bind
  apply wp_getPager
  apply wp_whenever
  · intro _
    apply wp_bind
    apply wp_sqlite3OsFileSize
    · simp only [World.file, h.fdSize]
      apply wp_whenever
      · intro _
        apply wp_bind
        apply wp_ite
        · intro hshort
          omega
        intro _
        apply wp_whenever
        · intro _
          rw [hofst]
          apply wp_sqlite3OsWrite
          · apply wp_setPager
            exact hok _ (h.grown hlt hvalid) le_rfl
          · intro full kept
            apply herr
            have hclosed : ClosedJournal base segs { w with
                fd := w.fd.write G.sectorSize (.fails full kept) (fun _ => 0)
                  (pageOfst G w.pager.dbSize) G.pageSize } :=
              h.toClosedJournal.frame rfl rfl ⟨rfl, rfl, rfl⟩
            exact hclosed.doomed h.errCode (Or.inl h.eState) (h.grow hlt) h.number
              h.doomed.writeable h.unlogged
        · exact fun hno => absurd hroom hno
      · intro heq
        rw [h.fdSize] at heq
        omega
    · exact fun full => herr full w h.doomed
  · intro hno
    apply absurd _ hno
    simp only [Pager.mayWriteDatabase, h.eState, EState.rank, le_refl, true_or, decide_true]

/-- A transaction whose new image `new` is in the database file. Until its
journal is deleted it can still be rolled back. -/
structure Finished (base new : DbImage G) (segs : List Segment) (w : World) : Prop
    extends Doomed base segs [] w where
  finished : w.pager.eState = .writerFinished
  dbSize : w.pager.dbSize = new.pages
  fd : w.fd = .settled w.fd.now
  fdSize : w.fd.now.size = G.pageSize * w.pager.dbFileSize
  dbFileSize : ValidPages G w.pager.dbFileSize
  isIn : Undoable new (fun _ => False) w.fd.now
  pDirty : w.pager.pPCache.pDirty = []
  data : ∀ p pPg, w.pager.pPCache.page p = some pPg → p ≤ new.pages →
    SamePage G pPg.pData (filePage G w.fd.now p)

/-- `new` is the database of `w` but for the change counter. -/
def Commits (G : Geometry) (w : World) (new : DbImage G) : Prop :=
  new.pages = w.pager.dbSize ∧
    ∀ p, 1 ≤ p → p ≤ new.pages → SameButCounter G p (new.page p) (w.content G p)

/-- The database file is synced, and the image in it is the new one. -/
theorem Flushed.finish (h : Flushed base segs w₀ w) (hpos : 1 ≤ w.pager.dbSize)
    (hvalid : ValidPages G w.pager.dbSize) (hle : w.pager.dbSize ≤ w.pager.dbFileSize) :
    ∃ new, Commits G w₀ new ∧ Finished base new segs { w with
      fd := w.fd.flush
      pager := { w.pager with eState := .writerFinished } } := by
  have hP := G.pageSize_bounds
  have hlong : G.pageSize * w.pager.dbSize ≤ w.fd.now.size := by
    rw [h.fdSize]
    exact mul_le_mul_of_nonneg_left hle (by omega)
  have hclosed : ClosedJournal base segs { w with
      fd := w.fd.flush, pager := { w.pager with eState := .writerFinished } } :=
    h.toClosedJournal.frame rfl rfl ⟨rfl, rfl, rfl⟩
  refine ⟨.ofFile w.fd.now w.pager.dbSize hpos hvalid, ⟨h.dbSize, ?_⟩,
    hclosed.doomed h.errCode (Or.inr rfl) h.undoable.flush h.number h.doomed.writeable h.unlogged,
    rfl, rfl, rfl, h.fdSize, h.dbFileSize, ⟨hlong, fun _ _ _ => rfl⟩, h.pDirty, h.data⟩
  intro p _ hple
  apply SameButCounter.trans (SamePage.sameButCounter _) (h.content p)
  cases hp : w.pager.pPCache.page p with
  | none =>
      rw [World.content_of_none hp]
      exact SamePage.refl _
  | some pPg =>
      rw [World.content_of_some hp]
      exact (h.data p pPg hp hple).symm

/-- What follows the sync of the journal. -/
theorem wp_finishCommit {Q : Unit → World → Prop} (h : Flushing base segs w₀ todo w)
    (hpos : 1 ≤ w₀.pager.dbSize) (hvalid : ValidPages G w₀.pager.dbSize)
    (hok : ∀ u new, Finished base new segs u → Commits G w₀ new → Q () u)
    (herr : ∀ full u, Doomed base segs [] u → E (IoOutcome.code full) u) :
    wp (do
      pagerWritePagelist G todo
      setPager fun p => { p with pPCache := p.pPCache.sqlite3PcacheCleanAll }
      let pPager ← getPager
      whenever (pPager.dbFileSize < pPager.dbSize)
        (pagerTruncate G (if pPager.dbSize = G.pagerMjPgno then pPager.dbSize - 1
          else pPager.dbSize))
      sqlite3PagerSync
      setPager fun p => { p with eState := .writerFinished }) Q E w := by
  -- the sync, once the file is as long as the database
  have hsync : ∀ u, Flushed base segs w₀ u → u.pager.dbSize ≤ u.pager.dbFileSize →
      wp (do
        sqlite3PagerSync
        setPager fun p => { p with eState := .writerFinished }) Q E u := by
    intro u hu hle
    have hsize := hu.dbSize
    apply wp_bind
    apply wp_sqlite3OsSync
    · apply wp_setPager
      obtain ⟨new, hnew, hfinished⟩ := hu.finish (by omega) (hsize ▸ hvalid) hle
      exact hok _ new hfinished hnew
    · exact fun full => herr full u hu.doomed
  apply wp_bind
  apply wp_pagerWritePagelist h
  · intro u hu
    have hclean := hu.cleanAll
    have hdbSize := hclean.dbSize
    apply wp_bind
    apply wp_setPager
    apply wp_bind
    apply wp_getPager
    apply wp_bind
    apply wp_whenever
    · intro hlt
      have hne : u.pager.dbSize ≠ G.pagerMjPgno := by
        rw [hu.dbSize]
        exact hvalid.2
      simp only [if_neg hne]
      apply wp_pagerTruncate_grow hclean hlt
      · rw [hdbSize]
        exact hvalid
      · exact hsync
      · exact herr
    · exact fun hge => hsync _ hclean (not_lt.mp hge)
  · exact herr

theorem sameButCounter_modify {v : Bytes} (hcached : (w.pager.pPCache.page 1).isSome = true)
    (p : Int) : SameButCounter G p ((w.modify 1 (pagerWriteChangecounter v)).content G p)
      (w.content G p) := by
  obtain ⟨pPg, hpage⟩ := Option.isSome_iff_exists.mp hcached
  rcases eq_or_ne p 1 with rfl | hne
  · rw [content_modify_self hpage]
    exact sameButCounter_stamp _ _
  · rw [content_modify_other hne]
    exact (SamePage.refl _).sameButCounter

/-- The change counter is counted up, or the transaction is to be rolled back. -/
theorem wp_pagerIncrChangecounter {random : UInt32} {Q : Unit → World → Prop}
    (h : Writing base segs cur w)
    (hok : ∀ u cur', Writing base segs cur' u → u.pager.dbSize = w.pager.dbSize →
      (∀ p, SameButCounter G p (u.content G p) (w.content G p)) → Q () u)
    (herr : ∀ rc u, Doomed base segs cur u → E rc u) :
    wp (pagerIncrChangecounter G random) Q E w := by
  have hpos := h.dbSize_pos
  apply wp_bind
  apply wp_getPager
  apply wp_whenever
  · intro _
    apply wp_bind
    apply wp_sqlite3PagerGet_writing h le_rfl
    · intro hlt
      omega
    · intro pPg u hu hfetched hpage
      apply wp_bind
      apply wp_sqlite3PagerWrite hu
      · rw [hpage]
        rfl
      · intro v cur' hv hwritten
        have hcached : (v.pager.pPCache.page 1).isSome = true := hv.cache.dirty 1 hwritten.member
        have hmodified := hv.modify hwritten.member (pagerWriteChangecounter v.pager.dbFileVers)
        apply wp_bind
        apply wp_bind
        apply wp_getPager
        apply wp_setPager
        apply wp_setPager
        apply hok _ cur'
        · exact ⟨hmodified.toOpenJournal.frame rfl rfl ⟨rfl, rfl, rfl, rfl, rfl, rfl⟩,
            hmodified.errCode, hmodified.eState, hmodified.dbOrigSize, hmodified.dbSize_pos,
            hmodified.dbSize, hmodified.fdSize, hmodified.base_le, hmodified.dbFileSize,
            hmodified.undoable, hmodified.exact, hmodified.cache⟩
        · calc v.pager.dbSize = max u.pager.dbSize 1 := hwritten.dbSize
            _ = max w.pager.dbSize 1 := by rw [hfetched.dbSize]
            _ = w.pager.dbSize := max_eq_left hpos
        · intro p
          have hsame := (hfetched.content.trans hwritten.sameContent) p
          exact (sameButCounter_modify hcached p).trans hsame.sameButCounter
      · exact fun full v hv => herr _ v hv
    · exact fun rc u hu _ => herr rc u hu.doomed
  · exact fun _ => hok w cur h rfl fun p => (SamePage.refl _).sameButCounter

/-- The journal is synced and the dirty pages are to be written. -/
theorem ClosedJournal.flushing {seg : Segment} {J : Store} {a : Int} (h : Writing base segs cur w)
    (hpages : seg.pages = cur) (hclosed : ClosedJournal base (segs ++ [seg]) { w with
      jfd := J, pager := { w.pager with journalHdr := a } })
    (hw₀ : w.pager.dbSize = w₀.pager.dbSize)
    (hcontent : ∀ p, SameButCounter G p (w.content G p) (w₀.content G p)) :
    Flushing base (segs ++ [seg]) w₀ w.pager.pPCache.sqlite3PcacheDirtyList { w with
      jfd := J, pager := ({ w.pager with journalHdr := a }).synced } := by
  have hcache : CacheOk base (pagesOf (segs ++ [seg])) [] w.fd.now
      w.pager.pPCache.sqlite3PcacheClearSyncFlags := by
    rw [pagesOf_snoc, hpages]
    exact h.cache.sync
  refine ⟨hclosed.frame rfl rfl ⟨rfl, rfl, rfl⟩, h.errCode, rfl, hw₀, h.fdSize, h.base_le,
    h.dbFileSize, Undoable.snoc seg h.undoable, hcache, ?_, ?_, ?_⟩
  · exact fun p hp => List.mem_mergeSort.mp hp
  · intro p pPg hp _ hnot
    exact hcache.clean p pPg hp fun hdirty => hnot (List.mem_mergeSort.mpr hdirty)
  · intro p
    have hsame : World.content G { w with
        jfd := J, pager := ({ w.pager with journalHdr := a }).synced } p = w.content G p :=
      World.content_congr rfl PCache.clearSyncFlags_data
    rw [hsame]
    exact hcontent p

/-- The first phase of a commit puts the new image into the database file, or
the transaction is to be rolled back. -/
theorem wp_sqlite3PagerCommitPhaseOne {random : UInt32} {Q : Unit → World → Prop}
    (h : Writing base segs cur w)
    (hok : ∀ u new segs', Finished base new segs' u → Commits G w new → Q () u)
    (herr : ∀ rc u segs' cur', Doomed base segs' cur' u → E rc u) :
    wp (sqlite3PagerCommitPhaseOne G random) Q E w := by
  apply wp_bind
  apply wp_getPager
  simp only [h.errCode]
  apply wp_whenever
  · intro _
    apply wp_bind
    apply wp_pagerIncrChangecounter h
    · intro u cur' hu hsize hcontent
      apply wp_bind
      apply wp_syncJournal hu.toOpenJournal hu.errCode hu.dbOrigSize hu.undoable hu.exact
      · exact fun htrue => absurd htrue Bool.false_ne_true
      · intro _ J a hclosed
        have hflushing := ClosedJournal.flushing hu rfl hclosed hsize hcontent
        have hpos := h.dbSize_pos
        apply wp_bind
        apply wp_getPager
        exact wp_finishCommit hflushing hpos h.dbSize (fun v new hv hnew => hok v new _ hv hnew)
          fun full v hv => herr _ v _ _ hv
      · intro full v hv hfd hlive
        obtain ⟨hlive, hpager, hexists⟩ := hlive rfl
        have hdoomed := hu.doomed
        apply herr _ v segs cur'
        refine ⟨hv, ?_, ?_, ?_, hexists, ?_, ?_, ?_, ?_, ?_, ?_⟩
        · rw [hpager]
          exact hdoomed.errCode
        · rw [hpager]
          exact hdoomed.eState
        · rw [hpager]
          exact hdoomed.jfdOpen
        · rw [hpager]
          exact hlive
        · rw [hfd]
          exact hdoomed.undoable
        · rw [hfd]
          exact hdoomed.exact
        · rw [hpager]
          exact hdoomed.number
        · rw [hpager]
          exact hdoomed.writeable
        · rw [hpager]
          exact hdoomed.unlogged
    · exact fun rc u hu => herr rc u _ _ hu
  · intro hno
    apply absurd _ hno
    rcases h.eState with ⟨hstate, -⟩ | ⟨hstate, -⟩
    · rw [hstate]
    · rw [hstate]
      exact Nat.le_succ _

end SqliteFs
