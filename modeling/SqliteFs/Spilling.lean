import SqliteFs.WriteTransactions

/-!
Changing pages and spilling them. `pagerWritePagelist` writes dirty pages to
the database file; `pagerStress` does so for one page in the middle of a
transaction, after syncing the journal if the page needs it.
-/

namespace SqliteFs

open Lib Prog

variable {G : Geometry} {base : DbImage G} {w : World} {E : Code → World → Prop}

/-! ## Changing and evicting pages -/

section Cache

variable {segs : List Segment} {cur : List Int} {pgno : Int}

/-- Put other data into a page. -/
def World.modify (w : World) (pgno : Int) (g : Bytes → Bytes) : World :=
  { w with pager := { w.pager with
    pPCache := w.pager.pPCache.update pgno fun pPg => { pPg with pData := g pPg.pData } } }

/-- Drop a page from the cache. -/
def World.evict (w : World) (pgno : Int) : World :=
  { w with pager := { w.pager with pPCache := w.pager.pPCache.sqlite3PcacheDrop pgno } }

theorem Writing.modify (h : Writing base segs cur w) (hmem : pgno ∈ w.pager.pPCache.pDirty)
    (g : Bytes → Bytes) : Writing base segs cur (w.modify pgno g) :=
  ⟨h.toOpenJournal.frame rfl rfl ⟨rfl, rfl, rfl, rfl, rfl, rfl⟩, h.errCode, h.eState,
    h.dbOrigSize, h.dbSize_pos, h.dbSize, h.fdSize, h.base_le, h.dbFileSize, h.undoable, h.exact,
    h.cache.modify hmem g⟩

theorem Growing.modify (h : Growing w) (g : Bytes → Bytes) : Growing (w.modify pgno g) :=
  ⟨h.file, h.dirty⟩

theorem content_modify_self {pPg : PgHdr} (hpage : w.pager.pPCache.page pgno = some pPg)
    (g : Bytes → Bytes) : (w.modify pgno g).content G pgno = g (w.content G pgno) := by
  have hnew : (w.modify pgno g).pager.pPCache.page pgno =
      some { pPg with pData := g pPg.pData } := by
    simp only [World.modify, PCache.update, if_true, hpage, Option.map_some]
  rw [World.content_of_some hnew, World.content_of_some hpage]

theorem content_modify_other {q : Int} (hq : q ≠ pgno) (g : Bytes → Bytes) :
    (w.modify pgno g).content G q = w.content G q :=
  World.content_congr rfl (congrArg (Option.map PgHdr.pData) (PCache.update_other hq))

theorem PCache.drop_page {c : PCache} {p : Int} {pPg : PgHdr}
    (h : (c.sqlite3PcacheDrop pgno).page p = some pPg) : p ≠ pgno ∧ c.page p = some pPg := by
  simp only [PCache.sqlite3PcacheDrop, Function.update_apply] at h
  split_ifs at h with hp
  exact ⟨hp, h⟩

theorem PCache.mem_drop {c : PCache} {p : Int} :
    p ∈ (c.sqlite3PcacheDrop pgno).pDirty ↔ p ∈ c.pDirty ∧ p ≠ pgno := by
  simp only [PCache.sqlite3PcacheDrop, List.mem_filter, decide_eq_true_eq]

/-- A clean page is in the file. -/
theorem CacheOk.evict {pages : List Int} {f : ParentFile} {c : PCache}
    (h : CacheOk base pages cur f c) (hclean : pgno ∉ c.pDirty) :
    CacheOk base pages cur f (c.sqlite3PcacheDrop pgno) := by
  constructor
  · exact fun p pPg hp => h.number p pPg (PCache.drop_page hp).2
  · intro p hp
    obtain ⟨hmem, hne⟩ := PCache.mem_drop.mp hp
    simp only [PCache.sqlite3PcacheDrop, Function.update_of_ne hne]
    exact h.dirty p hmem
  · intro p pPg hp hnot
    obtain ⟨hne, hold⟩ := PCache.drop_page hp
    exact h.clean p pPg hold fun hmem => hnot (PCache.mem_drop.mpr ⟨hmem, hne⟩)
  · intro p pPg hp htrue
    obtain ⟨hne, hold⟩ := PCache.drop_page hp
    exact PCache.mem_drop.mpr ⟨h.writeable p pPg hold htrue, hne⟩
  · exact fun p hp => h.logged p (PCache.mem_drop.mp hp).1
  · intro p hp
    obtain ⟨hmem, hsync⟩ := h.unsynced p hp
    refine ⟨PCache.mem_drop.mpr ⟨hmem, fun heq => hclean (heq ▸ hmem)⟩, ?_⟩
    exact fun pPg hpage => hsync pPg (PCache.drop_page hpage).2

theorem Writing.evict (h : Writing base segs cur w) (hclean : pgno ∉ w.pager.pPCache.pDirty) :
    Writing base segs cur (w.evict pgno) :=
  ⟨h.toOpenJournal.frame rfl rfl ⟨rfl, rfl, rfl, rfl, rfl, rfl⟩, h.errCode, h.eState,
    h.dbOrigSize, h.dbSize_pos, h.dbSize, h.fdSize, h.base_le, h.dbFileSize, h.undoable, h.exact,
    h.cache.evict hclean⟩

theorem Growing.evict (h : Growing w) : Growing (w.evict pgno) :=
  ⟨h.file, fun p hp => h.dirty p (PCache.mem_drop.mp hp).1⟩

theorem Coherent.evict {f : ParentFile} {c : PCache} (h : Coherent G f c) :
    Coherent G f (c.sqlite3PcacheDrop pgno) := by
  constructor
  · exact fun p pPg hp => h.number p pPg (PCache.drop_page hp).2
  · simp only [PCache.sqlite3PcacheDrop, h.pDirty, List.filter_nil]
  · exact fun p pPg hp => h.writeable p pPg (PCache.drop_page hp).2
  · exact fun p pPg hp => h.data p pPg (PCache.drop_page hp).2

theorem Reading.evict (h : Reading base w) : Reading base (w.evict pgno) :=
  ⟨h.errCode, h.dbSize, h.pInJournal, h.changeCountDone, h.atRest, h.cold, h.absent, h.cache.evict,
    h.state⟩

/-- The content does not depend on what is cached of it. -/
theorem sameContent_evict (hdata : ∀ pPg, w.pager.pPCache.page pgno = some pPg →
    SamePage G pPg.pData (filePage G w.fd.now pgno)) : SameContent G w (w.evict pgno) := by
  intro q
  rcases eq_or_ne q pgno with rfl | hne
  · have hnone : (w.evict q).pager.pPCache.page q = none := Function.update_self ..
    rw [World.content_of_none hnone]
    cases hpage : w.pager.pPCache.page q with
    | none =>
        rw [World.content_of_none hpage]
        exact SamePage.refl _
    | some pPg =>
        rw [World.content_of_some hpage]
        exact (hdata pPg hpage).symm
  · have hpage : (w.evict pgno).pager.pPCache.page q = w.pager.pPCache.page q :=
      Function.update_of_ne hne ..
    have hsame : (w.evict pgno).content G q = w.content G q :=
      World.content_congr rfl (congrArg (Option.map PgHdr.pData) hpage)
    rw [hsame]
    exact SamePage.refl _

end Cache

/-! ## Writing pages to the database file -/

/-- Page `a` is page `b` but for the change counter, which is in page 1. -/
def SameButCounter (G : Geometry) (pgno : Int) (a b : Bytes) : Prop :=
  ∀ k, 0 ≤ k → k < G.pageSize →
    (pgno = 1 → (k < 24 ∨ 28 ≤ k) ∧ (k < 92 ∨ 100 ≤ k)) → a k = b k

theorem SamePage.sameButCounter {pgno : Int} {a b : Bytes} (h : SamePage G a b) :
    SameButCounter G pgno a b :=
  fun k hlo hhi _ => h k hlo hhi

theorem SameButCounter.trans {pgno : Int} {a b c : Bytes} (h : SameButCounter G pgno a b)
    (h' : SameButCounter G pgno b c) : SameButCounter G pgno a c :=
  fun k hlo hhi hk => (h k hlo hhi hk).trans (h' k hlo hhi hk)

theorem SameButCounter.samePage {pgno : Int} {a b : Bytes} (h : SameButCounter G pgno a b)
    (hne : pgno ≠ 1) : SamePage G a b :=
  fun k hlo hhi => h k hlo hhi fun heq => absurd heq hne

/-- The change counter is the only thing that is stamped. -/
theorem sameButCounter_stamp (dbFileVers pData : Bytes) :
    SameButCounter G 1 (pagerWriteChangecounter dbFileVers pData) pData := by
  intro k _ _ hk
  obtain ⟨h1, h2⟩ := hk rfl
  simp only [pagerWriteChangecounter]
  rw [overlay_outside (by omega), overlay_outside (by omega), overlay_outside (by omega)]

/-- Writing a page to the file leaves the other pages alone. -/
theorem filePage_put_other {f : ParentFile} {src : Bytes} {p q : Int} (hne : q ≠ p) :
    SamePage G (filePage G (f.put src (pageOfst G p) G.pageSize) q) (filePage G f q) := by
  intro k hlo hhi
  have hpage : pageOfByte G (pageOfst G q + k) = q := pageOfByte_eq_iff.mpr ⟨by omega, by omega⟩
  apply ParentFile.put_outside
  by_contra hin
  apply hne
  rw [← hpage]
  exact pageOfByte_eq_iff.mpr (by omega)

theorem filePage_put_self {f : ParentFile} {src : Bytes} {p : Int} :
    SamePage G (filePage G (f.put src (pageOfst G p) G.pageSize) p) src := by
  intro k hlo hhi
  have hput : (f.put src (pageOfst G p) G.pageSize).byte (pageOfst G p + k) =
      src (pageOfst G p + k - pageOfst G p) :=
    ParentFile.put_inside (by omega) (by omega)
  rw [filePage, hput, add_sub_cancel_left]

/-- Page `pgno` in the cache has the data `d`. -/
def PCache.withData (c : PCache) (pgno : Int) (d : Bytes) : PCache :=
  c.update pgno fun pPg => { pPg with pData := d }

theorem PCache.withData_self {c : PCache} {pgno : Int} {pPg : PgHdr}
    (h : c.page pgno = some pPg) : c.withData pgno pPg.pData = c := by
  have hpage : (c.withData pgno pPg.pData).page = c.page := by
    funext q
    simp only [withData, update]
    split_ifs with hq
    · rw [hq, h]
      rfl
    · rfl
  cases c
  simp only [withData, update] at hpage ⊢
  rw [hpage]

/-- What the pager notes of a page that it has tried to write. -/
theorem wp_noteWritten {α : Type} {pgno : Int} {d : Bytes} {rc : Except Code α}
    {Q : α → World → Prop} (h : ∀ v, Ends Q E (rc, { w with
      pager := { w.pager with
        dbFileSize := max w.pager.dbFileSize pgno, dbFileVers := v } })) :
    wp (do
      whenever (pgno = 1) (setPager fun p => { p with dbFileVers := fun k => d (24 + k) })
      whenever (w.pager.dbFileSize < pgno) (setPager fun p => { p with dbFileSize := pgno })
      settle rc) Q E w := by
  have hsize : ∀ v, wp (do
      whenever (w.pager.dbFileSize < pgno) (setPager fun p => { p with dbFileSize := pgno })
      settle rc) Q E { w with pager := { w.pager with dbFileVers := v } } := by
    intro v
    have hv := h v
    apply wp_bind
    apply wp_whenever
    · intro hlt
      rw [max_eq_right hlt.le] at hv
      apply wp_setPager
      exact wp_settle hv
    · intro hge
      rw [max_eq_left (not_lt.mp hge)] at hv
      exact wp_settle hv
  apply wp_bind
  apply wp_whenever
  · exact fun _ => wp_setPager (hsize _)
  · exact fun _ => hsize w.pager.dbFileVers

/-- One page of the list. -/
theorem wp_pagerWritePagelist_cons {pgno : Int} {pList : List Int} {pPg : PgHdr}
    {Q : Unit → World → Prop} (hpage : w.pager.pPCache.page pgno = some pPg)
    (hskip : w.pager.dbSize < pgno → wp (pagerWritePagelist G pList) Q E w)
    (hok : pgno ≤ w.pager.dbSize → ∀ d v, SameButCounter G pgno d pPg.pData →
      wp (pagerWritePagelist G pList) Q E { w with
        fd := w.fd.write G.sectorSize .done d (pageOfst G pgno) G.pageSize
        pager := { w.pager with
          pPCache := w.pager.pPCache.withData pgno d
          dbFileSize := max w.pager.dbFileSize pgno
          dbFileVers := v } })
    (herr : pgno ≤ w.pager.dbSize → ∀ full kept d v, SameButCounter G pgno d pPg.pData →
      E (IoOutcome.code full) { w with
        fd := w.fd.write G.sectorSize (.fails full kept) d (pageOfst G pgno) G.pageSize
        pager := { w.pager with
          pPCache := w.pager.pPCache.withData pgno d
          dbFileSize := max w.pager.dbFileSize pgno
          dbFileVers := v } }) :
    wp (pagerWritePagelist G (pgno :: pList)) Q E w := by
  have hwrite : pgno ≤ w.pager.dbSize → ∀ d, SameButCounter G pgno d pPg.pData →
      wp (writePageOut G pgno) (fun _ t => wp (pagerWritePagelist G pList) Q E t) E
        { w with pager := { w.pager with pPCache := w.pager.pPCache.withData pgno d } } := by
    intro hle d hd
    have hnew : (w.pager.pPCache.withData pgno d).page pgno = some { pPg with pData := d } := by
      simp only [PCache.withData, PCache.update, if_true, hpage, Option.map_some]
    apply wp_bind
    apply wp_getPager
    simp only [hnew]
    apply wp_bind
    apply wp_attempt
    apply wp_sqlite3OsWrite
    · exact wp_noteWritten fun v => hok hle d v hd
    · exact fun full kept => wp_noteWritten fun v => herr hle full kept d v hd
  simp only [pagerWritePagelist]
  apply wp_bind
  apply wp_getPager
  apply wp_bind
  apply wp_whenever
  · intro hle
    apply wp_bind
    apply wp_whenever
    · rintro rfl
      apply wp_bind
      apply wp_getPager
      apply wp_setPager
      have hstamp : (w.pager.pPCache.update 1 fun pPg => { pPg with
          pData := pagerWriteChangecounter w.pager.dbFileVers pPg.pData }) =
            w.pager.pPCache.withData 1 (pagerWriteChangecounter w.pager.dbFileVers pPg.pData) := by
        simp only [PCache.withData, PCache.update]
        congr 1
        funext q
        split_ifs with hq
        · rw [hq, hpage]
          rfl
        · rfl
      rw [hstamp]
      exact hwrite hle _ (sameButCounter_stamp _ _)
    · intro _
      have hself := hwrite hle pPg.pData fun _ _ _ _ => rfl
      rw [PCache.withData_self hpage] at hself
      exact hself
  · exact fun hgt => hskip (not_le.mp hgt)

/-! ## `pagerStress` -/

section Stress

variable {segs : List Segment} {cur : List Int} {pgno : Int}

/-- A page that was written to the file is clean. -/
theorem CacheOk.spill {pages : List Int} {f : ParentFile} {c : PCache} {pPg : PgHdr} {d : Bytes}
    (h : CacheOk base pages cur f c) (hpage : c.page pgno = some pPg) (hnot : pgno ∉ cur) :
    CacheOk base pages cur (f.put d (pageOfst G pgno) G.pageSize)
      ((c.withData pgno d).sqlite3PcacheMakeClean pgno) := by
  have hself : ∀ q, ((c.withData pgno d).sqlite3PcacheMakeClean pgno).page pgno = some q →
      q.pData = d ∧ q.writeable = false := by
    intro q hq
    simp only [PCache.sqlite3PcacheMakeClean, PCache.withData, PCache.update, if_true, hpage,
      Option.map_some, Option.some.injEq] at hq
    rw [← hq]
    exact ⟨rfl, rfl⟩
  have hother : ∀ p, p ≠ pgno →
      ((c.withData pgno d).sqlite3PcacheMakeClean pgno).page p = c.page p := by
    intro p hp
    simp only [PCache.sqlite3PcacheMakeClean, PCache.withData, PCache.update, if_neg hp]
  have hmem : ∀ p, p ∈ ((c.withData pgno d).sqlite3PcacheMakeClean pgno).pDirty ↔
      p ∈ c.pDirty ∧ p ≠ pgno := by
    intro p
    simp only [PCache.sqlite3PcacheMakeClean, PCache.withData, PCache.update, List.mem_filter,
      decide_eq_true_eq]
  constructor
  · intro p q hq
    rcases eq_or_ne p pgno with rfl | hne
    · exact h.number p pPg hpage
    · rw [hother p hne] at hq
      exact h.number p q hq
  · intro p hp
    obtain ⟨hdirty, hne⟩ := (hmem p).mp hp
    rw [hother p hne]
    exact h.dirty p hdirty
  · intro p q hq hclean
    rcases eq_or_ne p pgno with rfl | hne
    · rw [(hself q hq).1]
      exact filePage_put_self.symm
    · rw [hother p hne] at hq
      have hold := h.clean p q hq fun hdirty => hclean ((hmem p).mpr ⟨hdirty, hne⟩)
      exact hold.trans (filePage_put_other hne).symm
  · intro p q hq htrue
    rcases eq_or_ne p pgno with rfl | hne
    · rw [(hself q hq).2] at htrue
      cases htrue
    · rw [hother p hne] at hq
      exact (hmem p).mpr ⟨h.writeable p q hq htrue, hne⟩
  · exact fun p hp => h.logged p ((hmem p).mp hp).1
  · intro p hp
    have hne : p ≠ pgno := fun heq => hnot (heq ▸ hp)
    obtain ⟨hdirty, hsync⟩ := h.unsynced p hp
    refine ⟨(hmem p).mpr ⟨hdirty, hne⟩, ?_⟩
    rw [hother p hne]
    exact hsync

/-- The size of a file that a page is written to. -/
theorem put_page_size {f : ParentFile} {src : Bytes} {n : Int} (h : f.size = G.pageSize * n) :
    (f.put src (pageOfst G pgno) G.pageSize).size = G.pageSize * max n pgno := by
  have hP := G.pageSize_bounds
  rw [ParentFile.put_size, pageOfst_end, h]
  rcases le_total n pgno with hle | hle
  · rw [max_eq_right hle, max_eq_right (mul_le_mul_of_nonneg_left hle (by omega))]
  · rw [max_eq_left hle, max_eq_left (mul_le_mul_of_nonneg_left hle (by omega))]

theorem validPages_max {n m : Int} (hn : ValidPages G n) (hm : ValidPages G m) :
    ValidPages G (max n m) := by
  rcases max_choice n m with heq | heq
  · rw [heq]
    exact hn
  · rw [heq]
    exact hm

/-- The journal of a page that needs no sync covers it. -/
theorem wp_spill {Q : Unit → World → Prop} (h : Writing base segs cur w) (hg : Growing w)
    (hmem : pgno ∈ w.pager.pPCache.pDirty) (hne : pgno ≠ 1) (hsegs : segs ≠ []) (hnot : pgno ∉ cur)
    (hok : ∀ u, Writing base segs cur u → Growing u → u.pager.dbSize = w.pager.dbSize →
      SameContent G w u → Q () u)
    (herr : ∀ full u, Durable base u → E (IoOutcome.code full) u) :
    wp (do
      pagerWritePagelist G [pgno]
      setPager fun p => { p with pPCache := p.pPCache.sqlite3PcacheMakeClean pgno }) Q E w := by
  obtain ⟨pPg, hpage⟩ := Option.isSome_iff_exists.mp (h.cache.dirty pgno hmem)
  obtain ⟨hpos, hvalid⟩ := h.cache.number pgno pPg hpage
  have hlogged : pgno ≤ base.pages → pgno ∈ pagesOf segs :=
    fun hle => (List.mem_append.mp (h.cache.logged pgno hmem hle)).resolve_right hnot
  have hundoable : ∀ o d, (w.fd.write G.sectorSize o d (pageOfst G pgno) G.pageSize).All
      (Undoable base fun p => p ∈ pagesOf segs) :=
    fun o d => Undoable.write h.undoable hlogged
  apply wp_bind
  apply wp_pagerWritePagelist_cons hpage
  · exact fun hlt => absurd (hg.dirty pgno hmem) (not_le.mpr hlt)
  · intro _ d v hd
    apply wp_pure
    apply wp_setPager
    apply hok
    · exact ⟨h.toOpenJournal.frame rfl rfl ⟨rfl, rfl, rfl, rfl, rfl, rfl⟩, h.errCode, h.eState,
        h.dbOrigSize, h.dbSize_pos, h.dbSize, put_page_size h.fdSize,
        h.base_le.trans (le_max_left _ _), validPages_max h.dbFileSize hvalid, hundoable .done d,
        fun hnil => absurd hnil hsegs, h.cache.spill hpage hnot⟩
    · constructor
      · exact max_le hg.file (hg.dirty pgno hmem)
      · intro p hp
        simp only [PCache.sqlite3PcacheMakeClean, PCache.withData, PCache.update,
          List.mem_filter] at hp
        exact hg.dirty p hp.1
    · rfl
    · intro q
      rcases eq_or_ne q pgno with rfl | hq
      · rw [World.content_of_some hpage]
        simp only [World.content, PCache.sqlite3PcacheMakeClean, PCache.withData, PCache.update,
          if_true, hpage, Option.map_some, Option.getD_some]
        exact hd.samePage hne
      · simp only [World.content, PCache.sqlite3PcacheMakeClean, PCache.withData, PCache.update,
          if_neg hq]
        cases hother : w.pager.pPCache.page q with
        | none => exact filePage_put_other hq
        | some pPg => exact SamePage.refl _
  · intro _ full kept d v _
    apply herr full
    have hframe : OpenJournal base segs cur { w with
        fd := w.fd.write G.sectorSize (.fails full kept) d (pageOfst G pgno) G.pageSize
        pager := { w.pager with
          pPCache := w.pager.pPCache.withData pgno d
          dbFileSize := max w.pager.dbFileSize pgno
          dbFileVers := v } } :=
      h.toOpenJournal.frame rfl rfl ⟨rfl, rfl, rfl, rfl, rfl, rfl⟩
    exact hframe.recoverable (hundoable (.fails full kept) d) fun hnil => absurd hnil hsegs

theorem PCache.clearSyncFlags_data {c : PCache} {q : Int} :
    (c.sqlite3PcacheClearSyncFlags.page q).map PgHdr.pData = (c.page q).map PgHdr.pData := by
  simp only [sqlite3PcacheClearSyncFlags]
  split_ifs
  · rw [Option.map_map]
    rfl
  · rfl

/-- A dirty page is spilled in the middle of a transaction, or the pager is in
the error state. -/
theorem wp_pagerStress {random : UInt32} {Q : Unit → World → Prop} (h : Writing base segs cur w)
    (hg : Growing w) (hmem : pgno ∈ w.pager.pPCache.pDirty) (hne : pgno ≠ 1)
    (hok : ∀ u segs' cur', Writing base segs' cur' u → Growing u →
      u.pager.dbSize = w.pager.dbSize → SameContent G w u → Q () u)
    (herr : ∀ rc u, Broken base u → E rc u) : wp (pagerStress G random pgno) Q E w := by
  obtain ⟨pPg, hpage⟩ := Option.isSome_iff_exists.mp (h.cache.dirty pgno hmem)
  have hbroken : ∀ full u, Durable base u →
      ((IoOutcome.code full).isIoOrFull = true → E (IoOutcome.code full) { u with
        pager := { u.pager with errCode := some (IoOutcome.code full), eState := .error } }) ∧
      ((IoOutcome.code full).isIoOrFull = false → E (IoOutcome.code full) u) := by
    intro full u hu
    constructor
    · exact fun _ => herr _ _ ⟨hu.congr rfl rfl rfl, rfl, rfl⟩
    · intro hfalse
      rw [IoOutcome.code_isIoOrFull] at hfalse
      cases hfalse
  apply wp_bind
  apply wp_getPager
  apply wp_whenever
  · intro _
    apply wp_pagerError
    apply wp_bind
    apply wp_whenever
    · intro _
      apply wp_syncJournal h.toOpenJournal h.errCode h.dbOrigSize h.undoable h.exact
      · intro _ J a b n c hJ
        have hwriting : Writing base (segs ++ [⟨w.pager.cksumInit, cur⟩]) [] { w with
            jfd := J
            pager := ({ w.pager with
              journalHdr := a, journalOff := b, nRec := n, cksumInit := c }).synced } := by
          refine ⟨hJ.frame rfl rfl ⟨rfl, rfl, rfl, rfl, rfl, rfl⟩, h.errCode,
            Or.inr ⟨rfl, snoc_ne_nil _ _⟩, h.dbOrigSize, h.dbSize_pos, h.dbSize, h.fdSize,
            h.base_le, h.dbFileSize, Undoable.snoc _ h.undoable,
            fun hnil => absurd hnil (snoc_ne_nil _ _), ?_⟩
          rw [List.append_nil, pagesOf_snoc]
          exact h.cache.sync
        apply wp_spill hwriting ⟨hg.file, hg.dirty⟩ hmem hne (snoc_ne_nil _ _) List.not_mem_nil
        · intro u hu hgu hsize hsame
          apply hok u _ _ hu hgu hsize
          apply SameContent.trans _ hsame
          intro q
          have hcontent : World.content G { w with
              jfd := J
              pager := ({ w.pager with
                journalHdr := a, journalOff := b, nRec := n, cksumInit := c }).synced } q =
                w.content G q :=
            World.content_congr rfl PCache.clearSyncFlags_data
          rw [hcontent]
          exact SamePage.refl _
        · exact hbroken
      · exact fun hfalse => absurd hfalse.symm Bool.false_ne_true
      · exact fun full u hu _ _ => hbroken full u hu
    · intro hno
      rw [not_or] at hno
      have hdbmod := h.eState.resolve_left fun hcache => hno.2 hcache.1
      apply wp_spill h hg hmem hne hdbmod.2
      · intro hcur
        apply hno.1
        rw [hpage, Option.any_some]
        exact (h.cache.unsynced pgno hcur).2 pPg hpage
      · exact fun u hu hgu hsize hsame => hok u segs cur hu hgu hsize hsame
      · exact hbroken
  · exact fun hcode => absurd h.errCode hcode

end Stress

end SqliteFs
