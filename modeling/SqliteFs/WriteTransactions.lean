import SqliteFs.JournalSyncing

/-!
Write transactions. A page goes into the journal before it may change, and its
record is synced before the page may reach the database file; so the file can
be rolled back at any time, and the cache as well.
-/

namespace SqliteFs

open Lib Prog

variable {G : Geometry} {base : DbImage G} {w : World} {E : Code → World → Prop}

/-! ## The cache of a transaction -/

/-- The cache of a transaction with the pages `pages` in its journal, of which
those in `cur` are not synced. -/
structure CacheOk (base : DbImage G) (pages cur : List Int) (f : ParentFile) (c : PCache) :
    Prop where
  number : c.Numbered G
  dirty : ∀ p ∈ c.pDirty, (c.page p).isSome = true
  clean : ∀ p pPg, c.page p = some pPg → p ∉ c.pDirty → SamePage G pPg.pData (filePage G f p)
  writeable : ∀ p pPg, c.page p = some pPg → pPg.writeable = true → p ∈ c.pDirty
  logged : ∀ p ∈ c.pDirty, p ≤ base.pages → p ∈ pages
  unsynced : ∀ p ∈ cur, p ∈ c.pDirty ∧ ∀ pPg, c.page p = some pPg → pPg.needSync = true

/-- Cache `c'` is cache `c` with page `pgno` dirty and with other flags. -/
structure PCache.Dirtied (c : PCache) (pgno : Int) (c' : PCache) : Prop where
  data : ∀ q, (c'.page q).map PgHdr.pData = (c.page q).map PgHdr.pData
  other : ∀ q, q ≠ pgno → c'.page q = c.page q
  dirty : ∀ q, q ∈ c'.pDirty ↔ q = pgno ∨ q ∈ c.pDirty

namespace CacheOk

variable {pages pages' cur cur' : List Int} {f : ParentFile} {c c' : PCache} {pgno : Int}

/-- A page that is not in the journal is the page of the image. -/
theorem unlogged {touched : Int → Prop} (h : CacheOk base pages cur f c)
    (hf : Undoable base touched f) (htouched : ∀ p, touched p → p ∈ pages) {p : Int} {pPg : PgHdr}
    (hpage : c.page p = some pPg) (hle : p ≤ base.pages) (hnot : p ∉ pages) :
    SamePage G pPg.pData (base.page p) := by
  have hclean : p ∉ c.pDirty := fun hdirty => hnot (h.logged p hdirty hle)
  have hfile := hf.filePage (h.number p pPg hpage).1 hle fun ht => hnot (htouched p ht)
  exact (h.clean p pPg hpage hclean).trans hfile

theorem of_coherent (h : Coherent G f c) : CacheOk base pages [] f c := by
  refine ⟨h.number, ?_, fun p pPg hpage _ => h.data p pPg hpage, ?_, ?_, ?_⟩
  · intro p hp
    rw [h.pDirty] at hp
    exact absurd hp List.not_mem_nil
  · intro p pPg hpage htrue
    rw [h.writeable p pPg hpage] at htrue
    cases htrue
  · intro p hp
    rw [h.pDirty] at hp
    exact absurd hp List.not_mem_nil
  · exact fun p hp => absurd hp List.not_mem_nil

/-- A clean page is added. -/
theorem set (h : CacheOk base pages cur f c) {pPg : PgHdr} (hnone : c.page pgno = none)
    (hnumber : 1 ≤ pgno ∧ ValidPages G pgno)
    (hdata : SamePage G pPg.pData (filePage G f pgno)) (hflag : pPg.writeable = false) :
    CacheOk base pages cur f (c.set pgno pPg) := by
  have hpages : ∀ p q, (c.set pgno pPg).page p = some q →
      p = pgno ∧ q = pPg ∨ c.page p = some q := by
    intro p q hq
    simp only [PCache.set, Function.update_apply] at hq
    split_ifs at hq with hp
    · exact Or.inl ⟨hp, (Option.some.inj hq).symm⟩
    · exact Or.inr hq
  have hdirty : pgno ∉ c.pDirty := by
    intro hmem
    have hsome := h.dirty pgno hmem
    rw [hnone] at hsome
    cases hsome
  constructor
  · intro p q hq
    rcases hpages p q hq with ⟨rfl, -⟩ | hold
    · exact hnumber
    · exact h.number p q hold
  · intro p hp
    simp only [PCache.set, Function.update_apply]
    split_ifs
    · rfl
    · exact h.dirty p hp
  · intro p q hq hnot
    rcases hpages p q hq with ⟨rfl, rfl⟩ | hold
    · exact hdata
    · exact h.clean p q hold hnot
  · intro p q hq htrue
    rcases hpages p q hq with ⟨rfl, rfl⟩ | hold
    · rw [hflag] at htrue
      cases htrue
    · exact h.writeable p q hold htrue
  · exact h.logged
  · intro p hp
    obtain ⟨hmem, hsync⟩ := h.unsynced p hp
    refine ⟨hmem, ?_⟩
    intro q hq
    rcases hpages p q hq with ⟨rfl, -⟩ | hold
    · exact absurd hmem hdirty
    · exact hsync q hold

/-- A page becomes dirty and gets other flags; if it is a page of the image it
is in the journal. -/
theorem write (h : CacheOk base pages cur f c) (hc : c.Dirtied pgno c')
    (hpages : ∀ q ∈ pages, q ∈ pages') (hcached : (c.page pgno).isSome = true)
    (hlogged : pgno ≤ base.pages → pgno ∈ pages') (hcur : ∀ q ∈ cur', q = pgno ∨ q ∈ cur)
    (hsync : pgno ∈ cur' → ∀ pPg, c'.page pgno = some pPg → pPg.needSync = true) :
    CacheOk base pages' cur' f c' := by
  have hsame : ∀ q pPg, c'.page q = some pPg →
      ∃ old, c.page q = some old ∧ pPg.pData = old.pData := by
    intro q pPg hq
    have hmap := hc.data q
    rw [hq, Option.map_some] at hmap
    obtain ⟨old, hold, heq⟩ := Option.map_eq_some_iff.mp hmap.symm
    exact ⟨old, hold, heq.symm⟩
  constructor
  · intro q pPg hq
    obtain ⟨old, hold, -⟩ := hsame q pPg hq
    exact h.number q old hold
  · intro q hq
    have hsome : (c'.page q).isSome = (c.page q).isSome := by
      rw [← Option.isSome_map, hc.data q, Option.isSome_map]
    rw [hsome]
    rcases (hc.dirty q).mp hq with rfl | hold
    · exact hcached
    · exact h.dirty q hold
  · intro q pPg hq hnot
    rw [hc.dirty, not_or] at hnot
    obtain ⟨old, hold, heq⟩ := hsame q pPg hq
    rw [heq]
    exact h.clean q old hold hnot.2
  · intro q pPg hq htrue
    rw [hc.dirty]
    rcases eq_or_ne q pgno with rfl | hne
    · exact Or.inl rfl
    · rw [hc.other q hne] at hq
      exact Or.inr (h.writeable q pPg hq htrue)
  · intro q hq hle
    rcases (hc.dirty q).mp hq with rfl | hold
    · exact hlogged hle
    · exact hpages q (h.logged q hold hle)
  · intro q hq
    rcases eq_or_ne q pgno with rfl | hne
    · exact ⟨(hc.dirty q).mpr (Or.inl rfl), hsync hq⟩
    · obtain ⟨hmem, hold⟩ := h.unsynced q ((hcur q hq).resolve_left hne)
      refine ⟨(hc.dirty q).mpr (Or.inr hmem), ?_⟩
      rw [hc.other q hne]
      exact hold

/-- A dirty page gets other data. -/
theorem modify (h : CacheOk base pages cur f c) (hmem : pgno ∈ c.pDirty) (g : Bytes → Bytes) :
    CacheOk base pages cur f (c.update pgno fun pPg => { pPg with pData := g pPg.pData }) := by
  have hpage : ∀ p q, (c.update pgno fun pPg => { pPg with pData := g pPg.pData }).page p = some q →
      ∃ old, c.page p = some old ∧ q.writeable = old.writeable ∧ q.needSync = old.needSync ∧
        (p ≠ pgno → q = old) := by
    intro p q hq
    simp only [PCache.update] at hq
    split_ifs at hq with hp
    · obtain ⟨old, hold, rfl⟩ := Option.map_eq_some_iff.mp hq
      exact ⟨old, hold, rfl, rfl, fun hne => absurd hp hne⟩
    · exact ⟨q, hq, rfl, rfl, fun _ => rfl⟩
  constructor
  · intro p q hq
    obtain ⟨old, hold, -⟩ := hpage p q hq
    exact h.number p old hold
  · intro p hp
    simp only [PCache.update]
    split_ifs
    · rw [Option.isSome_map]
      exact h.dirty p hp
    · exact h.dirty p hp
  · intro p q hq hnot
    obtain ⟨old, hold, -, -, heq⟩ := hpage p q hq
    have hne : p ≠ pgno := fun hp => hnot (hp ▸ hmem)
    rw [heq hne]
    exact h.clean p old hold hnot
  · intro p q hq htrue
    obtain ⟨old, hold, hflag, -⟩ := hpage p q hq
    exact h.writeable p old hold (hflag ▸ htrue)
  · exact h.logged
  · intro p hp
    obtain ⟨hdirty, hsync⟩ := h.unsynced p hp
    refine ⟨hdirty, ?_⟩
    intro q hq
    obtain ⟨old, hold, -, hflag, -⟩ := hpage p q hq
    rw [hflag]
    exact hsync old hold

/-- The journal is synced. -/
theorem sync (h : CacheOk base pages cur f c) :
    CacheOk base pages [] f c.sqlite3PcacheClearSyncFlags := by
  have hpage : ∀ p q, c.sqlite3PcacheClearSyncFlags.page p = some q →
      ∃ old, c.page p = some old ∧ q.pData = old.pData ∧ q.writeable = old.writeable := by
    intro p q hq
    simp only [PCache.sqlite3PcacheClearSyncFlags] at hq
    split_ifs at hq
    · obtain ⟨old, hold, rfl⟩ := Option.map_eq_some_iff.mp hq
      exact ⟨old, hold, rfl, rfl⟩
    · exact ⟨q, hq, rfl, rfl⟩
  constructor
  · intro p q hq
    obtain ⟨old, hold, -⟩ := hpage p q hq
    exact h.number p old hold
  · intro p hp
    simp only [PCache.sqlite3PcacheClearSyncFlags]
    split_ifs
    · rw [Option.isSome_map]
      exact h.dirty p hp
    · exact h.dirty p hp
  · intro p q hq hnot
    obtain ⟨old, hold, heq, -⟩ := hpage p q hq
    rw [heq]
    exact h.clean p old hold hnot
  · intro p q hq htrue
    obtain ⟨old, hold, -, hflag⟩ := hpage p q hq
    exact h.writeable p old hold (hflag ▸ htrue)
  · exact h.logged
  · exact fun p hp => absurd hp List.not_mem_nil

end CacheOk

/-! ## The states of a transaction -/

/-- `WRITER_CACHEMOD` and `WRITER_DBMOD`: the file can be rolled back with the
segments of the journal that are synced, the cache with all of it. -/
structure Writing (base : DbImage G) (segs : List Segment) (cur : List Int) (w : World) : Prop
    extends OpenJournal base segs cur w where
  errCode : w.pager.errCode = none
  eState : w.pager.eState = .writerCachemod ∧ segs = [] ∨
    w.pager.eState = .writerDbmod ∧ segs ≠ []
  dbOrigSize : w.pager.dbOrigSize = base.pages
  dbSize_pos : 1 ≤ w.pager.dbSize
  dbSize : ValidPages G w.pager.dbSize
  fdSize : w.fd.now.size = G.pageSize * w.pager.dbFileSize
  base_le : base.pages ≤ w.pager.dbFileSize
  dbFileSize : ValidPages G w.pager.dbFileSize
  undoable : w.fd.All (Undoable base fun p => p ∈ pagesOf segs)
  exact : segs = [] → AtRest base w.fd
  cache : CacheOk base (pagesOf segs ++ cur) cur w.fd.now w.pager.pPCache

/-- The database is at least as long as its file, and has all dirty pages. -/
structure Growing (w : World) : Prop where
  file : w.pager.dbFileSize ≤ w.pager.dbSize
  dirty : ∀ p ∈ w.pager.pPCache.pDirty, p ≤ w.pager.dbSize

/-- A transaction of which all that is needed is that it can be rolled back. -/
structure Doomed (base : DbImage G) (segs : List Segment) (cur : List Int) (w : World) : Prop
    extends Durable base w where
  errCode : w.pager.errCode = none
  eState : w.pager.eState = .writerCachemod ∧ segs = [] ∨
    (w.pager.eState = .writerDbmod ∨ w.pager.eState = .writerFinished) ∧ segs ≠ []
  jfdOpen : w.pager.jfdOpen = true
  journalExists : w.journalExists = true
  live : LiveJournal base w.jfd.now w.pager segs cur
  undoable : w.fd.All (Undoable base fun p => p ∈ pagesOf segs)
  exact : segs = [] → AtRest base w.fd
  number : w.pager.pPCache.Numbered G
  writeable : ∀ p pPg, w.pager.pPCache.page p = some pPg → pPg.writeable = true →
    p ∈ w.pager.pPCache.pDirty
  unlogged : ∀ p pPg, w.pager.pPCache.page p = some pPg → p ≤ base.pages →
    p ∉ pagesOf segs ++ cur → SamePage G pPg.pData (base.page p)

section States

variable {segs : List Segment} {cur : List Int}

theorem Writing.durable (h : Writing base segs cur w) : Durable base w :=
  h.recoverable h.undoable h.exact

theorem Writing.unlogged (h : Writing base segs cur w) {p : Int} {pPg : PgHdr}
    (hpage : w.pager.pPCache.page p = some pPg) (hle : p ≤ base.pages)
    (hnot : p ∉ pagesOf segs ++ cur) : SamePage G pPg.pData (base.page p) :=
  h.cache.unlogged h.undoable.now (fun _ hp => List.mem_append_left _ hp) hpage hle hnot

theorem Writing.doomed (h : Writing base segs cur w) : Doomed base segs cur w := by
  refine ⟨h.durable, h.errCode, ?_, h.jfdOpen, h.journalExists, h.live, h.undoable, h.exact,
    h.cache.number, h.cache.writeable, fun p pPg => h.unlogged⟩
  rcases h.eState with ⟨hstate, hnil⟩ | ⟨hstate, hne⟩
  · exact Or.inl ⟨hstate, hnil⟩
  · exact Or.inr ⟨Or.inl hstate, hne⟩

end States

/-! ## Opening the journal -/

theorem wp_sqlite3PagerBegin {Q : Unit → World → Prop} (h : Reading base w)
    (hok : ∀ u, Reading base u → u.pager.eState = .writerLocked →
      (∀ p, u.content G p = w.content G p) → Q () u) : wp sqlite3PagerBegin Q E w := by
  apply wp_bind
  apply wp_getPager
  simp only [h.errCode]
  apply wp_whenever
  · intro hreader
    apply wp_setPager
    apply hok
    · refine ⟨h.errCode, h.dbSize, h.pInJournal, h.changeCountDone, h.atRest, h.cold, h.absent,
        h.cache, Or.inr ⟨rfl, h.dbSize, h.dbSize, ?_⟩⟩
      intro hopen
      rcases h.state with ⟨-, hclosed⟩ | ⟨hlocked, -⟩
      · rw [hclosed] at hopen
        cases hopen
      · rw [hreader] at hlocked
        cases hlocked
    · rfl
    · exact fun _ => rfl
  · intro hne
    apply hok w h
    · exact (h.state.resolve_left fun hr => hne hr.1).1
    · exact fun _ => rfl

theorem syncedAs_nil {ref v : ParentFile} (h : ¬MagicAt v 0) : SyncedAs G ref [] v :=
  ⟨fun _ hlo hhi => absurd hhi (not_lt.mpr hlo), v.size_nonneg, h⟩

/-- The first header of a journal, however far its write gets. -/
theorem Reading.header_synced {random : UInt32} {r : IoOutcome} (h : Reading base w) :
    (w.jfd.write G.sectorSize r (zHeader G random w.pager.dbOrigSize) 0 G.sectorSize).All
      (SyncedAs G w.jfd.now []) := by
  apply SyncedAs.write_all (fun v hv => syncedAs_nil (h.cold v hv)) le_rfl
  exact not_magicAt_header

/-- The transaction whose journal has its first header. -/
theorem Reading.writing {random : UInt32} (h : Reading base w)
    (horig : w.pager.dbOrigSize = base.pages) (hfile : w.pager.dbFileSize = base.pages) :
    Writing base [] [] { w with
      jfd := w.jfd.write G.sectorSize .done (zHeader G random w.pager.dbOrigSize) 0 G.sectorSize
      journalExists := true
      pager := { Pager.atHeader { w.pager with
          pInJournal := some [], jfdOpen := true, nRec := 0, journalOff := 0, journalHdr := 0 }
          G random with
        eState := .writerCachemod } } := by
  have hput : HeaderBody base (w.jfd.now.put (zHeader G random w.pager.dbOrigSize) 0
        G.sectorSize) 0 random ∧
      Stores (w.jfd.now.put (zHeader G random w.pager.dbOrigSize) 0 G.sectorSize) (0 + 8) 4
        (sqlite3Put4byte 0) := by
    rw [horig]
    exact headerBody_put
  have hoff : 0 + G.sectorSize = recordsEnd G 0 [] := by
    simp only [recordsEnd, List.length_nil, Nat.cast_zero, mul_zero, add_zero]
  constructor
  · exact ⟨⟨w.jfd.now, trivial, h.header_synced⟩, rfl, hoff, rfl, hput.1, hput.2, trivial,
      le_max_right _ _, ⟨List.nodup_nil, fun _ hp => absurd hp List.not_mem_nil⟩,
      ⟨[], rfl, fun _ => Iff.rfl⟩, rfl, rfl⟩
  · exact h.errCode
  · exact Or.inl ⟨rfl, rfl⟩
  · exact horig
  · simp only [Pager.atHeader, h.dbSize]
    exact base.pages_pos
  · simp only [Pager.atHeader, h.dbSize]
    exact base.validPages
  · simp only [Pager.atHeader, hfile]
    exact h.atRest.isIn.size
  · exact hfile.ge
  · simp only [Pager.atHeader, hfile]
    exact base.validPages
  · exact h.atRest.undoable _
  · exact fun _ => h.atRest
  · exact .of_coherent h.cache

/-- The first page that is written opens the journal, or nothing happened. -/
theorem wp_pagerOpenJournal {random : UInt32} {Q : Unit → World → Prop} (h : Reading base w)
    (hlocked : w.pager.eState = .writerLocked)
    (hok : ∀ u, Writing base [] [] u → Growing u → u.fd = w.fd →
      u.pager.pPCache = w.pager.pPCache → u.pager.dbSize = base.pages → Q () u)
    (herr : ∀ rc u, Reading base u → u.pager.eState = .writerLocked → u.fd = w.fd →
      u.pager.pPCache = w.pager.pPCache → E rc u) : wp (pagerOpenJournal G random) Q E w := by
  obtain ⟨-, horig, hfile, hopen⟩ := h.state.resolve_left (by
    rintro ⟨hreader, -⟩
    rw [hreader] at hlocked
    cases hlocked)
  -- what a failure leaves
  have hfail : ∀ rc J b l n a d c o, J.All (fun v => ¬MagicAt v 0) →
      (b = false → J = .settled .blank) → (o = true → b = true) → wp (do
        setPager fun p => { p with pInJournal := none }
        fail rc) Q E { w with
          jfd := J
          journalExists := b
          pager := { w.pager with
            pInJournal := l, nRec := n, journalOff := a, journalHdr := d, cksumInit := c
            jfdOpen := o } } := by
    intro rc J b l n a d c o hJ hb ho
    apply wp_bind
    apply wp_setPager
    apply wp_fail
    apply herr
    · exact ⟨h.errCode, h.dbSize, rfl, h.changeCountDone, h.atRest, hJ, hb, h.cache,
        Or.inr ⟨hlocked, horig, hfile, ho⟩⟩
    · exact hlocked
    · rfl
    · rfl
  -- writing the header once the journal is open
  have hheader : ∀ b o, b = true → o = true → wp (do
        setPager fun p => { p with nRec := 0, journalOff := 0, journalHdr := 0 }
        writeJournalHdr G random)
      (fun _ t => wp (setPager fun p => { p with eState := .writerCachemod }) Q E t)
      (fun rc t => wp (do
        setPager fun p => { p with pInJournal := none }
        fail rc) Q E t)
      { w with
        journalExists := b
        pager := { w.pager with pInJournal := some [], jfdOpen := o } } := by
    rintro b o rfl rfl
    apply wp_bind
    apply wp_setPager
    apply wp_writeJournalHdr
    · apply wp_setPager
      apply hok _ (h.writing horig hfile)
      · refine ⟨(hfile.trans h.dbSize.symm).le, ?_⟩
        intro p hp
        have hmem : p ∈ w.pager.pPCache.pDirty := hp
        rw [h.cache.pDirty] at hmem
        cases hmem
      · rfl
      · rfl
      · exact h.dbSize
    · intro full kept
      apply hfail
      · exact fun v hv => (h.header_synced v hv).last
      · exact Bool.noConfusion
      · exact fun _ => rfl
  apply wp_bind
  apply wp_getPager
  apply wp_bind
  apply wp_attempt
  apply wp_bind
  apply wp_setPager
  apply wp_bind
  apply wp_whenever
  · intro _
    apply wp_sqlite3OsOpenJournal
    · exact hheader true true rfl rfl
    · exact hfail .cantopen w.jfd w.journalExists _ _ _ _ _ _ h.cold h.absent hopen
    · exact hfail .ioerr w.jfd w.journalExists _ _ _ _ _ _ h.cold h.absent hopen
  · intro hisOpen
    rw [Bool.not_eq_false] at hisOpen
    exact hheader w.journalExists w.pager.jfdOpen (hopen hisOpen) hisOpen

/-! ## Making a page writeable -/

/-- What making page `pgno` writeable does to the database: nothing, but that
the page is there. -/
structure Written (w u : World) (pgno : Int) : Prop where
  fd : u.fd = w.fd
  data : ∀ q, (u.pager.pPCache.page q).map PgHdr.pData = (w.pager.pPCache.page q).map PgHdr.pData
  dirty : ∀ q ∈ u.pager.pPCache.pDirty, q = pgno ∨ q ∈ w.pager.pPCache.pDirty
  dbSize : u.pager.dbSize = max w.pager.dbSize pgno
  dbFileSize : u.pager.dbFileSize = w.pager.dbFileSize
  dbFileVers : u.pager.dbFileVers = w.pager.dbFileVers
  member : pgno ∈ u.pager.pPCache.pDirty

theorem Written.content {u : World} {pgno : Int} (h : Written w u pgno) (q : Int) :
    u.content G q = w.content G q :=
  World.content_congr (congrArg Versions.now h.fd) (h.data q)

theorem Written.growing {u : World} {pgno : Int} (h : Written w u pgno) (hw : Growing w) :
    Growing u := by
  have hfile := hw.file
  constructor
  · rw [h.dbFileSize, h.dbSize]
    exact hfile.trans (le_max_left _ _)
  · intro p hp
    rw [h.dbSize]
    rcases h.dirty p hp with rfl | hold
    · exact le_max_right _ _
    · exact (hw.dirty p hold).trans (le_max_left _ _)

section Flags

variable {c : PCache} {pgno q : Int} {g : PgHdr → PgHdr}

theorem PCache.update_data (hg : ∀ pPg, (g pPg).pData = pPg.pData) :
    ((c.update pgno g).page q).map PgHdr.pData = (c.page q).map PgHdr.pData := by
  simp only [PCache.update]
  split_ifs
  · rw [Option.map_map]
    congr 1
    funext pPg
    exact hg pPg
  · rfl

theorem PCache.update_other (hq : q ≠ pgno) : (c.update pgno g).page q = c.page q := if_neg hq

theorem PCache.makeDirty_page : (c.sqlite3PcacheMakeDirty pgno).page = c.page := by
  unfold PCache.sqlite3PcacheMakeDirty
  split_ifs
  · rfl
  · rfl

theorem PCache.mem_makeDirty :
    q ∈ (c.sqlite3PcacheMakeDirty pgno).pDirty ↔ q = pgno ∨ q ∈ c.pDirty := by
  unfold PCache.sqlite3PcacheMakeDirty
  split_ifs with hmem
  · refine ⟨Or.inr, ?_⟩
    rintro (rfl | hq)
    · exact hmem
    · exact hq
  · exact List.mem_cons

theorem PCache.dirtied_makeDirty : c.Dirtied pgno (c.sqlite3PcacheMakeDirty pgno) := by
  constructor
  · intro q
    rw [PCache.makeDirty_page]
  · intro q _
    rw [PCache.makeDirty_page]
  · exact fun q => PCache.mem_makeDirty

theorem PCache.Dirtied.update {c' : PCache} (h : c.Dirtied pgno c')
    (hg : ∀ pPg, (g pPg).pData = pPg.pData) : c.Dirtied pgno (c'.update pgno g) := by
  constructor
  · exact fun q => (PCache.update_data hg).trans (h.data q)
  · exact fun q hq => (PCache.update_other hq).trans (h.other q hq)
  · exact h.dirty

end Flags

section Write

variable {segs : List Segment} {cur : List Int} {pgno : Int}

/-- The last steps of `pagerWrite`: a page that is in the journal, or need not
be, becomes writeable. -/
theorem wp_writeable {cur' : List Int} {p' : Pager} {J : Store} {c : PCache}
    {Q : Unit → World → Prop}
    (h : Writing base segs cur w) (hcached : (w.pager.pPCache.page pgno).isSome = true)
    (hjournal : OpenJournal base segs cur' { w with jfd := J, pager := p' })
    (hp' : ∃ a n l, p' = { w.pager with
      journalOff := a, nRec := n, pInJournal := l, pPCache := c })
    (hcur : ∀ q ∈ cur, q ∈ cur') (hc : w.pager.pPCache.Dirtied pgno c)
    (hlogged : pgno ≤ base.pages → pgno ∈ pagesOf segs ++ cur')
    (hnew : ∀ q ∈ cur', q = pgno ∨ q ∈ cur)
    (hsync : pgno ∈ cur' → ∀ pPg, c.page pgno = some pPg → pPg.needSync = true)
    (hok : ∀ u, Writing base segs cur' u → Written w u pgno → Q () u) :
    wp (do
      let pPager ← getPager
      setPage pgno fun pPg => { pPg with writeable := true }
      whenever (pPager.dbSize < pgno) (setPager fun p => { p with dbSize := pgno })) Q E
      { w with jfd := J, pager := p' } := by
  obtain ⟨a, n, l, rfl⟩ := hp'
  obtain ⟨pPg, hpage⟩ := Option.isSome_iff_exists.mp hcached
  obtain ⟨hpos, hvalid⟩ := h.cache.number pgno pPg hpage
  have hc' : w.pager.pPCache.Dirtied pgno
      (c.update pgno fun pPg => { pPg with writeable := true }) := hc.update fun _ => rfl
  have hcache : CacheOk base (pagesOf segs ++ cur') cur' w.fd.now
      (c.update pgno fun pPg => { pPg with writeable := true }) := by
    apply h.cache.write hc'
    · intro q hq
      rcases List.mem_append.mp hq with hq | hq
      · exact List.mem_append_left _ hq
      · exact List.mem_append_right _ (hcur q hq)
    · exact hcached
    · exact hlogged
    · exact hnew
    · intro hmem q hq
      simp only [PCache.update, if_true] at hq
      obtain ⟨old, hold, rfl⟩ := Option.map_eq_some_iff.mp hq
      exact hsync hmem old hold
  have hdone : ∀ m, m = max w.pager.dbSize pgno → Q () { w with
      jfd := J
      pager := { w.pager with
        journalOff := a, nRec := n, pInJournal := l, dbSize := m
        pPCache := c.update pgno fun pPg => { pPg with writeable := true } } } := by
    intro m hm
    have hdbSize : 1 ≤ m ∧ ValidPages G m := by
      have hsize := h.dbSize
      have hsizePos := h.dbSize_pos
      rcases max_choice w.pager.dbSize pgno with heq | heq
      · rw [hm, heq]
        exact ⟨hsizePos, hsize⟩
      · rw [hm, heq]
        exact ⟨hpos, hvalid⟩
    apply hok
    · exact ⟨hjournal.frame rfl rfl ⟨rfl, rfl, rfl, rfl, rfl, rfl⟩, h.errCode, h.eState,
        h.dbOrigSize, hdbSize.1, hdbSize.2, h.fdSize, h.base_le, h.dbFileSize, h.undoable, h.exact,
        hcache⟩
    · exact ⟨rfl, hc'.data, fun q hq => (hc'.dirty q).mp hq, hm, rfl, rfl,
        (hc'.dirty pgno).mpr (Or.inl rfl)⟩
  apply wp_bind
  apply wp_getPager
  apply wp_bind
  apply wp_setPager
  apply wp_whenever
  · intro hlt
    apply wp_setPager
    exact hdone pgno (max_eq_right hlt.le).symm
  · intro hle
    exact hdone _ (max_eq_left (not_lt.mp hle)).symm

/-- What an error while a page is put into the journal leaves. -/
theorem Writing.doomed_marked {J : Store} (h : Writing base segs cur w)
    (hjournal : OpenJournal base segs cur { w with
      jfd := J
      pager := ({ w.pager with
        pPCache := w.pager.pPCache.sqlite3PcacheMakeDirty pgno }).marked pgno }) :
    Doomed base segs cur { w with
      jfd := J
      pager := ({ w.pager with
        pPCache := w.pager.pPCache.sqlite3PcacheMakeDirty pgno }).marked pgno } := by
  have hold := h.doomed
  -- the pages have the data and the flag that they had
  have hpage : ∀ q pPg, ((w.pager.pPCache.sqlite3PcacheMakeDirty pgno).update pgno fun pPg =>
      { pPg with needSync := true }).page q = some pPg → ∃ old, w.pager.pPCache.page q = some old ∧
        pPg.pData = old.pData ∧ pPg.writeable = old.writeable := by
    intro q pPg hq
    simp only [PCache.update, PCache.makeDirty_page] at hq
    split_ifs at hq
    · obtain ⟨old, hold, rfl⟩ := Option.map_eq_some_iff.mp hq
      exact ⟨old, hold, rfl, rfl⟩
    · exact ⟨pPg, hq, rfl, rfl⟩
  refine ⟨hjournal.recoverable h.undoable h.exact, h.errCode, hold.eState, h.jfdOpen,
    h.journalExists, hjournal.live, h.undoable, h.exact, ?_, ?_, ?_⟩
  · intro q pPg hq
    obtain ⟨old, hq, -⟩ := hpage q pPg hq
    exact hold.number q old hq
  · intro q pPg hq htrue
    obtain ⟨old, hq, -, hflag⟩ := hpage q pPg hq
    exact PCache.mem_makeDirty.mpr (Or.inr (hold.writeable q old hq (hflag ▸ htrue)))
  · intro q pPg hq hle hnot
    obtain ⟨old, hq, hdata, -⟩ := hpage q pPg hq
    rw [hdata]
    exact hold.unlogged q old hq hle hnot

/-- Journaling a page of a transaction and making it writeable. -/
theorem wp_journalPage {Q : Unit → World → Prop} (h : Writing base segs cur w)
    (hcached : (w.pager.pPCache.page pgno).isSome = true)
    (hok : ∀ u cur', Writing base segs cur' u → Written w u pgno → Q () u)
    (herr : ∀ full u, Doomed base segs cur u → E (IoOutcome.code full) u) :
    wp (do
      setPager fun p => { p with pPCache := p.pPCache.sqlite3PcacheMakeDirty pgno }
      journalPage G pgno
      let pPager ← getPager
      setPage pgno fun pPg => { pPg with writeable := true }
      whenever (pPager.dbSize < pgno) (setPager fun p => { p with dbSize := pgno })) Q E w := by
  obtain ⟨l, hl, hmem⟩ := h.inJournal
  obtain ⟨pPg, hpage⟩ := Option.isSome_iff_exists.mp hcached
  obtain ⟨hpos, hvalid⟩ := h.cache.number pgno pPg hpage
  have hopen : OpenJournal base segs cur { w with
      pager := { w.pager with pPCache := w.pager.pPCache.sqlite3PcacheMakeDirty pgno } } :=
    h.toOpenJournal.frame rfl rfl ⟨rfl, rfl, rfl, rfl, rfl, rfl⟩
  -- a page whose record is not synced is marked already
  have hsync : pgno ∈ cur → ∀ pPg,
      (w.pager.pPCache.sqlite3PcacheMakeDirty pgno).page pgno = some pPg → pPg.needSync = true := by
    intro hcur
    rw [PCache.makeDirty_page]
    exact (h.cache.unsynced pgno hcur).2
  have hmarked : w.pager.pPCache.Dirtied pgno ((w.pager.pPCache.sqlite3PcacheMakeDirty pgno).update
      pgno fun pPg => { pPg with needSync := true }) :=
    PCache.dirtied_makeDirty.update fun _ => rfl
  have hmarkedSync : ∀ pPg, ((w.pager.pPCache.sqlite3PcacheMakeDirty pgno).update pgno fun pPg =>
      { pPg with needSync := true }).page pgno = some pPg → pPg.needSync = true := by
    intro q hq
    simp only [PCache.update, if_true] at hq
    obtain ⟨old, -, rfl⟩ := Option.map_eq_some_iff.mp hq
    rfl
  apply wp_bind
  apply wp_setPager
  apply wp_bind
  apply wp_bind
  apply wp_getPager
  split
  · next hnone =>
      rw [hl] at hnone
      cases hnone
  next hsome =>
  obtain rfl := Option.some.inj (hl.symm.trans hsome)
  apply wp_ite
  · intro hin
    apply wp_pure
    apply wp_writeable h hcached hopen ⟨_, _, _, rfl⟩ (fun q => id) PCache.dirtied_makeDirty
    · exact fun _ => (hmem pgno).mp hin
    · exact fun q hq => Or.inr hq
    · exact hsync
    · exact fun u => hok u cur
  intro hout
  have hfresh : pgno ∉ pagesOf segs ++ cur := fun hin => hout ((hmem pgno).mpr hin)
  apply wp_ite
  · intro hle
    simp only [h.dbOrigSize] at hle
    simp only [PCache.makeDirty_page, hpage]
    apply wp_pagerAddPageToRollbackJournal hopen hfresh ⟨hpos, hle, hvalid.2⟩
      (h.unlogged hpage hle hfresh)
    · intro J a n l' hJ
      apply wp_writeable h hcached hJ ⟨a, n, l', rfl⟩ (fun q hq => List.mem_append_left _ hq)
        hmarked
      · intro _
        exact List.mem_append_right _ (List.mem_append_right _ (List.mem_singleton_self _))
      · intro q hq
        rcases List.mem_append.mp hq with hold | hnew
        · exact Or.inr hold
        · exact Or.inl (List.mem_singleton.mp hnew)
      · exact fun _ => hmarkedSync
      · exact fun u => hok u _
    · exact fun full J hJ => herr full _ (h.doomed_marked hJ)
  intro hgt
  simp only [h.dbOrigSize] at hgt
  apply wp_ite
  · intro _
    apply wp_setPager
    have hjournal : OpenJournal base segs cur { w with
        pager := ({ w.pager with
          pPCache := w.pager.pPCache.sqlite3PcacheMakeDirty pgno }).marked pgno } :=
      hopen.frame rfl rfl ⟨rfl, rfl, rfl, rfl, rfl, rfl⟩
    apply wp_writeable h hcached hjournal ⟨_, _, _, rfl⟩ (fun q => id) hmarked
    · exact fun hle => absurd hle hgt
    · exact fun q hq => Or.inr hq
    · exact fun _ => hmarkedSync
    · exact fun u => hok u cur
  · intro _
    apply wp_pure
    apply wp_writeable h hcached hopen ⟨_, _, _, rfl⟩ (fun q => id) PCache.dirtied_makeDirty
    · exact fun hle => absurd hle hgt
    · exact fun q hq => Or.inr hq
    · exact hsync
    · exact fun u => hok u cur

/-- A page is made writeable in a transaction that has its journal open. -/
theorem wp_sqlite3PagerWrite {random : UInt32} {Q : Unit → World → Prop}
    (h : Writing base segs cur w) (hcached : (w.pager.pPCache.page pgno).isSome = true)
    (hok : ∀ u cur', Writing base segs cur' u → Written w u pgno → Q () u)
    (herr : ∀ full u, Doomed base segs cur u → E (IoOutcome.code full) u) :
    wp (sqlite3PagerWrite G random pgno) Q E w := by
  obtain ⟨pPg, hpage⟩ := Option.isSome_iff_exists.mp hcached
  apply wp_bind
  apply wp_getPager
  apply wp_ite
  · rintro ⟨hwriteable, hle⟩
    rw [hpage, Option.any_some] at hwriteable
    apply wp_pure
    apply hok w cur h
    exact ⟨rfl, fun _ => rfl, fun q hq => Or.inr hq, (max_eq_left hle).symm, rfl, rfl,
      h.cache.writeable pgno pPg hpage hwriteable⟩
  · intro _
    simp only [h.errCode]
    apply wp_bind
    apply wp_getPager
    apply wp_bind
    apply wp_whenever
    · intro hlocked
      rcases h.eState with ⟨hstate, -⟩ | ⟨hstate, -⟩
      · rw [hstate] at hlocked
        cases hlocked
      · rw [hstate] at hlocked
        cases hlocked
    · exact fun _ => wp_journalPage h hcached hok herr

/-- The first write of a transaction opens its journal. -/
theorem wp_sqlite3PagerWrite_first {random : UInt32} {Q : Unit → World → Prop}
    (h : Reading base w) (hlocked : w.pager.eState = .writerLocked)
    (hcached : (w.pager.pPCache.page pgno).isSome = true)
    (hok : ∀ u cur', Writing base [] cur' u → Growing u → u.pager.dbSize = max base.pages pgno →
      (∀ q, u.content G q = w.content G q) → Q () u)
    (herr : ∀ rc u, Reading base u ∧ u.pager.eState = .writerLocked ∨ Doomed base [] [] u →
      E rc u) : wp (sqlite3PagerWrite G random pgno) Q E w := by
  obtain ⟨pPg, hpage⟩ := Option.isSome_iff_exists.mp hcached
  apply wp_bind
  apply wp_getPager
  apply wp_ite
  · rintro ⟨hwriteable, -⟩
    rw [hpage, Option.any_some, h.cache.writeable pgno pPg hpage] at hwriteable
    cases hwriteable
  · intro _
    simp only [h.errCode]
    apply wp_bind
    apply wp_getPager
    apply wp_bind
    apply wp_whenever
    · intro _
      apply wp_pagerOpenJournal h hlocked
      · intro u hu hgrowing hfd hcache hsize
        apply wp_journalPage hu
        · rw [hcache]
          exact hcached
        · intro v cur' hv hwritten
          apply hok v cur' hv (hwritten.growing hgrowing)
          · rw [hwritten.dbSize, hsize]
          intro q
          rw [hwritten.content]
          apply World.content_congr (congrArg Versions.now hfd)
          rw [hcache]
        · exact fun full v hv => herr _ v (Or.inr hv)
      · exact fun rc u hu hstate _ _ => herr rc u (Or.inl ⟨hu, hstate⟩)
    · exact fun hne => absurd hlocked hne

end Write

/-! ## Reading and changing pages -/

/-- The database is the same in both worlds. -/
def SameContent (G : Geometry) (w u : World) : Prop :=
  ∀ q, SamePage G (u.content G q) (w.content G q)

theorem SameContent.refl (w : World) : SameContent G w w := fun _ => SamePage.refl _

theorem SameContent.trans {u v : World} (h : SameContent G w u) (h' : SameContent G u v) :
    SameContent G w v :=
  fun q => (h' q).trans (h q)

theorem Written.sameContent {u : World} {pgno : Int} (h : Written w u pgno) :
    SameContent G w u := by
  intro q
  rw [h.content]
  exact SamePage.refl _

/-- A page is fetched into the cache. -/
theorem sameContent_set {c : PCache} {pgno : Int} {pPg : PgHdr} {u : World}
    (hnone : w.pager.pPCache.page pgno = none) (hc : c = w.pager.pPCache)
    (hfd : u.fd.now = w.fd.now) (hcache : u.pager.pPCache = c.set pgno pPg)
    (hdata : SamePage G pPg.pData (filePage G w.fd.now pgno)) : SameContent G w u := by
  intro q
  rcases eq_or_ne q pgno with rfl | hne
  · have hpage : u.pager.pPCache.page q = some pPg := by
      rw [hcache]
      exact Function.update_self ..
    rw [World.content_of_some hpage, World.content_of_none hnone]
    exact hdata
  · have hpage : u.pager.pPCache.page q = w.pager.pPCache.page q := by
      rw [hcache, hc]
      exact Function.update_of_ne hne ..
    rw [World.content_congr hfd (congrArg (Option.map PgHdr.pData) hpage)]
    exact SamePage.refl _

section Reading

variable {segs : List Segment} {cur : List Int} {pgno : Int}

/-- A reader gets the page of the image. -/
theorem wp_sqlite3PagerGet_reading {Q : PgHdr → World → Prop} (h : Reading base w) (hpos : 1 ≤ pgno)
    (hok : ∀ pPg u, Reading base u → SameContent G w u → u.pager.eState = w.pager.eState →
      u.pager.pPCache.page pgno = some pPg → Q pPg u)
    (herr : ∀ rc u, Reading base u → SameContent G w u → u.pager.eState = w.pager.eState → E rc u) :
    wp (sqlite3PagerGet G pgno) Q E w := by
  apply wp_sqlite3PagerGet
  · intro _
    rw [h.dbSize]
    exact h.atRest.isIn.size.le
  · exact fun pPg hpage => hok pPg w h (SameContent.refl w) rfl hpage
  · intro pData v hnone hvalid hdata
    have hcache : CacheOk base [] [] w.fd.now w.pager.pPCache := .of_coherent h.cache
    have hset : CacheOk base [] [] w.fd.now (w.pager.pPCache.set pgno ⟨pData, false, false⟩) :=
      hcache.set hnone ⟨hpos, hvalid⟩ hdata rfl
    apply hok
    · refine ⟨h.errCode, h.dbSize, h.pInJournal, h.changeCountDone, h.atRest, h.cold, h.absent,
        ⟨hset.number, h.cache.pDirty, ?_, ?_⟩, h.state⟩
      · intro p pPg hp
        rw [Bool.eq_false_iff]
        intro htrue
        have hmem := hset.writeable p pPg hp htrue
        simp only [PCache.set, h.cache.pDirty] at hmem
        cases hmem
      · intro p pPg hp
        apply hset.clean p pPg hp
        simp only [PCache.set, h.cache.pDirty]
        exact List.not_mem_nil
    · exact sameContent_set hnone rfl rfl rfl hdata
    · rfl
    · exact Function.update_self ..
  · intro rc v
    apply herr
    · exact ⟨h.errCode, h.dbSize, h.pInJournal, h.changeCountDone, h.atRest, h.cold, h.absent,
        h.cache, h.state⟩
    · exact SameContent.refl _
    · rfl

/-- Nothing but a clean page in the cache is new. -/
structure Fetched (G : Geometry) (w u : World) : Prop where
  content : SameContent G w u
  fd : u.fd = w.fd
  dbSize : u.pager.dbSize = w.pager.dbSize
  dbFileSize : u.pager.dbFileSize = w.pager.dbFileSize
  dirty : u.pager.pPCache.pDirty = w.pager.pPCache.pDirty

theorem Fetched.growing {u : World} (h : Fetched G w u) (hw : Growing w) : Growing u := by
  constructor
  · rw [h.dbFileSize, h.dbSize]
    exact hw.file
  · rw [h.dirty, h.dbSize]
    exact hw.dirty

/-- A writer gets the page with its own changes. -/
theorem wp_sqlite3PagerGet_writing {Q : PgHdr → World → Prop} (h : Writing base segs cur w)
    (hpos : 1 ≤ pgno)
    (hsize : w.pager.dbSize < pgno → w.fd.now.size ≤ G.pageSize * w.pager.dbSize)
    (hok : ∀ pPg u, Writing base segs cur u → Fetched G w u →
      u.pager.pPCache.page pgno = some pPg → Q pPg u)
    (herr : ∀ rc u, Writing base segs cur u → Fetched G w u → E rc u) :
    wp (sqlite3PagerGet G pgno) Q E w := by
  apply wp_sqlite3PagerGet hsize
  · exact fun pPg hpage => hok pPg w h ⟨SameContent.refl w, rfl, rfl, rfl, rfl⟩ hpage
  · intro pData v hnone hvalid hdata
    have hset : CacheOk base (pagesOf segs ++ cur) cur w.fd.now
        (w.pager.pPCache.set pgno ⟨pData, false, false⟩) :=
      h.cache.set hnone ⟨hpos, hvalid⟩ hdata rfl
    apply hok
    · exact ⟨h.toOpenJournal.frame rfl rfl ⟨rfl, rfl, rfl, rfl, rfl, rfl⟩, h.errCode, h.eState,
        h.dbOrigSize, h.dbSize_pos, h.dbSize, h.fdSize, h.base_le, h.dbFileSize, h.undoable,
        h.exact, hset⟩
    · exact ⟨sameContent_set hnone rfl rfl rfl hdata, rfl, rfl, rfl, rfl⟩
    · exact Function.update_self ..
  · intro rc v
    apply herr
    · exact ⟨h.toOpenJournal.frame rfl rfl ⟨rfl, rfl, rfl, rfl, rfl, rfl⟩, h.errCode, h.eState,
        h.dbOrigSize, h.dbSize_pos, h.dbSize, h.fdSize, h.base_le, h.dbFileSize, h.undoable,
        h.exact, h.cache⟩
    · exact ⟨SameContent.refl _, rfl, rfl, rfl, rfl⟩

end Reading

end SqliteFs
