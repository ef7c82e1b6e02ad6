import SqliteFs.JournalReading

/-!
Playing a journal back. Each record puts a page of the image back, each header
the number of pages; behind the last header nothing is restored. A playback
that is cut short leaves a file that can still be rolled back.
-/

namespace SqliteFs

open Lib Prog

variable {G : Geometry} {base : DbImage G} {w : World} {E : Code → World → Prop}

/-! ## Playing records back -/

theorem cksumLoop_congr {a b : Bytes} {len : Int} (h : ∀ k, 0 ≤ k → k < len → a k = b k) (n : Nat)
    {i : Int} (hi : i < len) (cksum : UInt32) : cksumLoop a n i cksum = cksumLoop b n i cksum := by
  induction n generalizing i cksum with
  | zero => rfl
  | succ n ih =>
      simp only [cksumLoop]
      split_ifs with hpos
      · rw [h i hpos.le hi]
        exact ih (by omega) _
      · rfl

theorem pagerCksum_congr {a b : Bytes} (h : ∀ k, 0 ≤ k → k < G.pageSize → a k = b k)
    (cksumInit : UInt32) : pagerCksum G cksumInit a = pagerCksum G cksumInit b :=
  cksumLoop_congr h _ (by omega) cksumInit

/-- What a playback leaves alone, and what it may have done when it is cut
short: the pages in `touched` may be old, new or torn. -/
structure Interrupted (base : DbImage G) (w₀ t : World) : Prop where
  jfd : t.jfd = w₀.jfd
  journalExists : t.journalExists = w₀.journalExists
  masterExists : t.masterExists = w₀.masterExists
  fd : Undoes base w₀.fd t.fd

/-- The pager in the middle of a playback: the pages in `played` are back, in
the database file where they had been touched, and in the cache. -/
structure Replaying (base : DbImage G) (w₀ : World) (touched played : Int → Prop) (t : World) :
    Prop extends Interrupted base w₀ t where
  fdNow : Undoable base (fun p => touched p ∧ ¬played p) t.fd.now
  fdSize : t.fd.now.size = G.pageSize * base.pages
  dbSize : t.pager.dbSize = base.pages
  state : t.pager = { w₀.pager with
    journalOff := t.pager.journalOff
    cksumInit := t.pager.cksumInit
    dbSize := t.pager.dbSize
    dbFileSize := t.pager.dbFileSize
    dbFileVers := t.pager.dbFileVers
    pPCache := t.pager.pPCache }
  dirty : t.pager.pPCache.pDirty = w₀.pager.pPCache.pDirty
  cached : ∀ p, (t.pager.pPCache.page p).map PgHdr.writeable =
    (w₀.pager.pPCache.page p).map PgHdr.writeable
  unplayed : ∀ p, ¬played p → t.pager.pPCache.page p = w₀.pager.pPCache.page p
  reloaded : ∀ p pPg, played p → t.pager.pPCache.page p = some pPg →
    ∀ k, 0 ≤ k → k < G.pageSize → pPg.pData k = base.page p k

namespace Replaying

variable {w₀ t u : World} {touched played : Int → Prop}

theorem moved (h : Replaying base w₀ touched played t) (hu : Moved t u) :
    Replaying base w₀ touched played u := by
  obtain ⟨a, c, rfl⟩ := hu
  refine ⟨⟨h.jfd, h.journalExists, h.masterExists, h.fd⟩, h.fdNow, h.fdSize, h.dbSize, ?_, h.dirty,
    h.cached, h.unplayed, h.reloaded⟩
  have hstate := h.state
  simp only at hstate ⊢
  rw [hstate]

theorem journalHdr (h : Replaying base w₀ touched played t) :
    t.pager.journalHdr = w₀.pager.journalHdr := by
  rw [h.state]

theorem mayWrite (h : Replaying base w₀ touched played t) :
    t.pager.mayWriteDatabase = w₀.pager.mayWriteDatabase := by
  rw [h.state]
  rfl

/-- Nothing is read into an empty cache. -/
theorem empty (h : Replaying base w₀ touched played t) (hw₀ : w₀.pager.pPCache = .empty) :
    t.pager.pPCache = .empty := by
  have hpage : t.pager.pPCache.page = fun _ => none := by
    funext p
    apply Option.map_eq_none_iff.mp
    rw [h.cached p, hw₀]
    rfl
  have hdirty : t.pager.pPCache.pDirty = [] := by
    rw [h.dirty, hw₀]
    rfl
  cases hc : t.pager.pPCache with
  | mk page pDirty =>
      rw [hc] at hpage hdirty
      simp only at hpage hdirty
      rw [hpage, hdirty]
      rfl

end Replaying

theorem wp_restorePage {pgno : Int} {aData : Bytes} {Q : Unit → World → Prop}
    (hok : ∀ m, Q () { w with
      fd := w.fd.write G.sectorSize .done aData (pageOfst G pgno) G.pageSize
      pager := { w.pager with dbFileSize := m } })
    (herr : ∀ full kept m, E (IoOutcome.code full) { w with
      fd := w.fd.write G.sectorSize (.fails full kept) aData (pageOfst G pgno) G.pageSize
      pager := { w.pager with dbFileSize := m } }) :
    wp (restorePage G pgno aData) Q E w := by
  apply wp_bind
  apply wp_attempt
  apply wp_sqlite3OsWrite
  · apply wp_bind
    apply wp_setPager
    exact wp_settle (hok _)
  · intro full kept
    apply wp_bind
    apply wp_setPager
    exact wp_settle (herr full kept _)

theorem wp_reloadPage {pgno : Int} {aData : Bytes} {Q : Unit → World → Prop}
    (hok : ∀ v, Q () { w with pager := { w.pager with
      pPCache := w.pager.pPCache.update pgno fun pPg => { pPg with pData := aData }
      dbFileVers := v } }) :
    wp (reloadPage pgno aData) Q E w := by
  apply wp_bind
  apply wp_getPager
  apply wp_whenever
  · intro _
    apply wp_bind
    apply wp_setPager
    apply wp_whenever
    · exact fun _ => wp_setPager (hok _)
    · exact fun _ => hok _
  · intro hnone
    have hsame : w.pager.pPCache.update pgno (fun pPg => { pPg with pData := aData }) =
        w.pager.pPCache := by
      have hno : w.pager.pPCache.page pgno = none := Option.not_isSome_iff_eq_none.mp hnone
      simp only [PCache.update]
      congr 1
      funext p
      split_ifs with hp
      · rw [hp, hno]
        rfl
      · rfl
    have := hok w.pager.dbFileVers
    rwa [hsame] at this

/-- The content of a page from the journal in the cache. -/
theorem Replaying.played {w₀ t : World} {touched played : Int → Prop} {pgno : Int} {aData : Bytes}
    (h : Replaying base w₀ touched played t)
    (hdata : ∀ k, 0 ≤ k → k < G.pageSize → aData k = base.page pgno k) {fd : Store}
    (hall : Undoes base w₀.fd fd)
    (hnow : Undoable base (fun p => touched p ∧ ¬(played p ∨ p = pgno)) fd.now)
    (hsize : fd.now.size = G.pageSize * base.pages) (a m : Int) (v : Bytes) :
    Replaying base w₀ touched (fun p => played p ∨ p = pgno) { t with
      fd := fd
      pager := { t.pager with
        journalOff := a
        dbFileSize := m
        pPCache := t.pager.pPCache.update pgno fun pPg => { pPg with pData := aData }
        dbFileVers := v } } := by
  refine ⟨⟨h.jfd, h.journalExists, h.masterExists, hall⟩, hnow, hsize, h.dbSize, ?_, h.dirty, ?_,
    ?_, ?_⟩
  · have hstate := h.state
    simp only at hstate ⊢
    rw [hstate]
  · intro p
    simp only [PCache.update]
    split_ifs
    · rw [Option.map_map]
      exact h.cached p
    · exact h.cached p
  · intro p hp
    simp only [not_or] at hp
    simp only [PCache.update, if_neg hp.2]
    exact h.unplayed p hp.1
  · intro p pPg hp hpage
    simp only [PCache.update] at hpage
    split_ifs at hpage with heq
    · obtain ⟨old, -, rfl⟩ := Option.map_eq_some_iff.mp hpage
      rw [heq]
      exact hdata
    · exact h.reloaded p pPg (hp.resolve_right heq) hpage

/-- A record that is written back to the database file. -/
theorem Replaying.restored {w₀ : World} {touched played : Int → Prop} {pgno : Int} {aData : Bytes}
    (h : Replaying base w₀ touched played w) (hhas : base.Has pgno)
    (hdata : ∀ k, 0 ≤ k → k < G.pageSize → aData k = base.page pgno k) (a m : Int) (v : Bytes) :
    Replaying base w₀ touched (fun p => played p ∨ p = pgno) { w with
      fd := w.fd.write G.sectorSize .done aData (pageOfst G pgno) G.pageSize
      pager := { w.pager with
        journalOff := a
        dbFileSize := m
        pPCache := w.pager.pPCache.update pgno fun pPg => { pPg with pData := aData }
        dbFileVers := v } } := by
  have hP := G.pageSize_bounds
  have hend : pageOfst G pgno + G.pageSize ≤ w.fd.now.size := by
    rw [pageOfst_end, h.fdSize]
    exact mul_le_mul_of_nonneg_left hhas.2.1 (by omega)
  have hnow : Undoable base (fun p => touched p ∧ ¬(played p ∨ p = pgno))
      (w.fd.write G.sectorSize .done aData (pageOfst G pgno) G.pageSize).now := by
    apply (h.fdNow.restore hhas.2.1 hdata).mono
    rintro p ⟨⟨htp, hnp⟩, hne⟩
    exact ⟨htp, not_or.mpr ⟨hnp, hne⟩⟩
  apply h.played hdata (h.fd.write hhas.2.1 hdata) hnow
  exact (Store.write_size hend).trans h.fdSize

/-- A record of a page that was never touched, or is back already. -/
theorem Replaying.skipped {w₀ : World} {touched played : Int → Prop} {pgno : Int} {aData : Bytes}
    (h : Replaying base w₀ touched played w) (hback : touched pgno → played pgno)
    (hdata : ∀ k, 0 ≤ k → k < G.pageSize → aData k = base.page pgno k) (a : Int) (v : Bytes) :
    Replaying base w₀ touched (fun p => played p ∨ p = pgno) { w with
      pager := { w.pager with
        journalOff := a
        pPCache := w.pager.pPCache.update pgno fun pPg => { pPg with pData := aData }
        dbFileVers := v } } := by
  have hnow : Undoable base (fun p => touched p ∧ ¬(played p ∨ p = pgno)) w.fd.now := by
    apply h.fdNow.mono
    rintro p ⟨htp, hnp⟩
    refine ⟨htp, not_or.mpr ⟨hnp, ?_⟩⟩
    rintro rfl
    exact hnp (hback htp)
  exact h.played hdata h.fd hnow h.fdSize a w.pager.dbFileSize v

/-- The page that the record at `off` is of. -/
def recordPgno (f : ParentFile) (off : Int) : Int := sqlite3Get4byte fun k => f.byte (off + k)

/-- A record at `off` that is played back when the checksums start from `cksumInit`. -/
structure PassesAt (G : Geometry) (f : ParentFile) (cksumInit : UInt32) (off : Int) : Prop where
  inside : off + G.journalPgSz ≤ f.size
  number : recordPgno f off ≠ 0 ∧ recordPgno f off ≠ G.pagerMjPgno
  cksum : pagerCksum G cksumInit (fun k => f.byte (off + 4 + k)) =
    UInt32.ofNat (sqlite3Get4byte fun k => f.byte (off + G.journalPgSz - 4 + k)).toNat

theorem RecordAt.recordPgno {f : ParentFile} {off pgno : Int} {cksumInit : UInt32}
    (h : RecordAt base f off cksumInit pgno) (hhas : base.Has pgno) : recordPgno f off = pgno := by
  have hmax := base.pages_le
  obtain ⟨hpos, hle, -⟩ := hhas
  simp only [PAGER_MAX_PGNO] at hmax
  exact h.number.get4 (by omega) (by omega)

theorem RecordAt.passes {f : ParentFile} {off pgno : Int} {cksumInit : UInt32}
    (h : RecordAt base f off cksumInit pgno) (hhas : base.Has pgno)
    (hin : off + G.journalPgSz ≤ f.size) : PassesAt G f cksumInit off := by
  have hnumber := h.recordPgno hhas
  refine ⟨hin, ⟨?_, ?_⟩, ?_⟩
  · rw [hnumber]
    exact (Int.lt_of_lt_of_le Int.zero_lt_one hhas.1).ne'
  · rw [hnumber]
    exact hhas.2.2
  · have hlt := (pagerCksum G cksumInit (base.page pgno)).toNat_lt
    have hofst : off + G.journalPgSz - 4 = off + G.pageSize + 4 := by
      simp only [Geometry.journalPgSz]
      ring
    rw [hofst, h.cksum.get4 (Int.natCast_nonneg _) (by omega), Int.toNat_natCast,
      UInt32.ofNat_toNat, pagerCksum_congr h.data]

/-- Reading a record that passes and holds a page of the image puts the page back. -/
theorem wp_pagerPlaybackOnePage_passes {w₀ : World} {touched played : Int → Prop} {pgno : Int}
    {Q : Bool → World → Prop} (h : Replaying base w₀ touched played w)
    (hpass : PassesAt G w.jfd.now w.pager.cksumInit w.pager.journalOff)
    (hpgno : recordPgno w.jfd.now w.pager.journalOff = pgno) (hhas : base.Has pgno)
    (hdata : ∀ k, 0 ≤ k → k < G.pageSize →
      w.jfd.now.byte (w.pager.journalOff + 4 + k) = base.page pgno k)
    (hsynced : touched pgno → ¬played pgno → w₀.pager.mayWriteDatabase ∧
      w.pager.journalOff + G.journalPgSz ≤ w₀.pager.journalHdr)
    (hok : ∀ t, Replaying base w₀ touched (fun p => played p ∨ p = pgno) t →
      t.pager.journalOff = w.pager.journalOff + G.journalPgSz →
      t.pager.cksumInit = w.pager.cksumInit → Q true t)
    (herr : ∀ full t, Interrupted base w₀ t → E (IoOutcome.code full) t) :
    wp (pagerPlaybackOnePage G) Q E w := by
  have hP := G.pageSize_bounds
  have hsz : G.journalPgSz = G.pageSize + 8 := rfl
  have hin := hpass.inside
  obtain ⟨hpos, hle, hmj⟩ := id hhas
  rw [← h.mayWrite, ← h.journalHdr] at hsynced
  have hintr : ∀ (a m : Int) (v : Bytes) (c : PCache) (s : Store),
      Undoes base w₀.fd s → Interrupted base w₀ { w with
        fd := s
        pager := { w.pager with
          journalOff := a, dbFileSize := m, pPCache := c, dbFileVers := v } } :=
    fun _ _ _ _ _ hfd => ⟨h.jfd, h.journalExists, h.masterExists, hfd⟩
  apply wp_bind
  apply wp_getPager
  apply wp_bind
  apply wp_read32bits
  · simp only [World.file]
    omega
  · have hnumber : (sqlite3Get4byte fun k => w.jfd.now.byte (w.pager.journalOff + k)) = pgno :=
      hpgno
    simp only [World.file, hnumber]
    apply wp_bind
    apply wp_sqlite3OsRead
    · have hpage : w.pager.journalOff + 4 + G.pageSize ≤ w.jfd.now.size := by omega
      simp only [World.file, hpage, decide_true, Bool.not_true, Bool.false_eq_true, if_false]
      apply wp_bind
      apply wp_setPager
      rw [if_neg (by omega), if_neg (by rw [h.dbSize]; omega)]
      apply wp_bind
      apply wp_read32bits
      · simp only [World.file]
        omega
      · simp only [World.file, hpass.cksum, ne_eq, not_true_eq_false, if_false]
        apply wp_bind
        apply wp_attempt
        apply wp_whenever
        · -- a synced record is written to the database file
          intro _
          apply wp_restorePage
          · intro m
            apply wp_bind
            apply wp_reloadPage
            intro v
            apply wp_bind
            apply wp_settle
            apply wp_pure
            exact hok _ (h.restored hhas hdata (w.pager.journalOff + G.journalPgSz) m v) rfl rfl
          · intro full kept m
            apply wp_bind
            apply wp_reloadPage
            intro v
            apply wp_bind
            apply wp_settle
            have hall := h.fd.write (o := .fails full kept) hhas.2.1 hdata
            exact herr full _ (hintr _ _ _ _ _ hall)
        · -- the page of an unsynced record was never touched, or is back already
          intro hwrite
          have hback : touched pgno → played pgno := by
            intro ht
            by_contra hnot
            exact hwrite (hsynced ht hnot)
          apply wp_bind
          apply wp_reloadPage
          intro v
          apply wp_bind
          apply wp_settle
          apply wp_pure
          have hskipped := h.skipped hback hdata (w.pager.journalOff + G.journalPgSz) v
          exact hok _ hskipped rfl rfl
      · exact fun full => herr full _ (hintr _ _ _ _ _ h.fd)
    · exact fun full => herr full _ h.toInterrupted
  · exact fun full => herr full _ h.toInterrupted

/-- Reading the record of a page that is in the journal puts the page back. -/
theorem wp_pagerPlaybackOnePage {w₀ : World} {touched played : Int → Prop} {pgno : Int}
    {Q : Bool → World → Prop} (h : Replaying base w₀ touched played w)
    (hrec : RecordAt base w₀.jfd.now w.pager.journalOff w.pager.cksumInit pgno)
    (hin : w.pager.journalOff + G.journalPgSz ≤ w₀.jfd.now.size) (hhas : base.Has pgno)
    (hsynced : w₀.pager.mayWriteDatabase ∧
      w.pager.journalOff + G.journalPgSz ≤ w₀.pager.journalHdr ↔ touched pgno)
    (hok : ∀ t, Replaying base w₀ touched (fun p => played p ∨ p = pgno) t →
      t.pager.journalOff = w.pager.journalOff + G.journalPgSz →
      t.pager.cksumInit = w.pager.cksumInit → Q true t)
    (herr : ∀ full t, Interrupted base w₀ t → E (IoOutcome.code full) t) :
    wp (pagerPlaybackOnePage G) Q E w := by
  rw [← h.jfd] at hrec hin
  exact wp_pagerPlaybackOnePage_passes h (hrec.passes hhas hin) (hrec.recordPgno hhas) hhas
    hrec.data (fun ht _ => hsynced.mpr ht) hok herr

/-- A block of records is synced, and its pages are the touched ones, or it is
not, and its pages never left the cache. -/
def BlockSynced (w₀ : World) (touched : Int → Prop) (G : Geometry) (off : Int) (pages : List Int) :
    Prop :=
  (w₀.pager.mayWriteDatabase = true ∧ off + G.journalPgSz * pages.length ≤ w₀.pager.journalHdr ∧
    ∀ p ∈ pages, touched p) ∨
  ((w₀.pager.mayWriteDatabase = false ∨ w₀.pager.journalHdr ≤ off) ∧ ∀ p ∈ pages, ¬touched p)

theorem journalPgSz_pos (G : Geometry) : 0 < G.journalPgSz := by
  have hP := G.pageSize_bounds
  simp only [Geometry.journalPgSz]
  omega

/-- The room that the records of one more page take. -/
theorem journalPgSz_mul_cons (G : Geometry) (pgno : Int) (pages : List Int) :
    G.journalPgSz * ((pgno :: pages).length : Int) =
      G.journalPgSz + G.journalPgSz * pages.length := by
  push_cast [List.length_cons]
  ring

theorem journalPgSz_mul_nonneg (G : Geometry) (pages : List Int) :
    0 ≤ G.journalPgSz * (pages.length : Int) :=
  mul_nonneg (journalPgSz_pos G).le (Int.natCast_nonneg _)

theorem BlockSynced.head {w₀ : World} {touched : Int → Prop} {off pgno : Int} {pages : List Int}
    (h : BlockSynced w₀ touched G off (pgno :: pages)) :
    w₀.pager.mayWriteDatabase ∧ off + G.journalPgSz ≤ w₀.pager.journalHdr ↔ touched pgno := by
  have hsz := journalPgSz_pos G
  have hnonneg := journalPgSz_mul_nonneg G pages
  simp only [BlockSynced, journalPgSz_mul_cons] at h
  rcases h with ⟨hmay, hend, hall⟩ | ⟨hnot, hall⟩
  · have htouched := hall pgno List.mem_cons_self
    exact ⟨fun _ => htouched, fun _ => ⟨hmay, by omega⟩⟩
  · have huntouched := hall pgno List.mem_cons_self
    refine ⟨?_, fun ht => absurd ht huntouched⟩
    rintro ⟨hmay, hend⟩
    rcases hnot with hno | hno
    · rw [hno] at hmay
      cases hmay
    · omega

theorem BlockSynced.tail {w₀ : World} {touched : Int → Prop} {off pgno : Int} {pages : List Int}
    (h : BlockSynced w₀ touched G off (pgno :: pages)) :
    BlockSynced w₀ touched G (off + G.journalPgSz) pages := by
  have hsz := journalPgSz_pos G
  simp only [BlockSynced, journalPgSz_mul_cons] at h ⊢
  rcases h with ⟨hmay, hend, hall⟩ | ⟨hnot, hall⟩
  · exact Or.inl ⟨hmay, by omega, fun p hp => hall p (List.mem_cons_of_mem _ hp)⟩
  · refine Or.inr ⟨?_, fun p hp => hall p (List.mem_cons_of_mem _ hp)⟩
    rcases hnot with hno | hno
    · exact Or.inl hno
    · exact Or.inr (by omega)

/-- The loop over the records of a header puts its pages back and goes on
behind them. -/
theorem wp_playbackRecords {w₀ : World} {touched played : Int → Prop} {szJ : Int} {extra : Nat}
    {pages : List Int} {Q : Bool → World → Prop} (h : Replaying base w₀ touched played w)
    (hrecs : RecordsAt base w₀.jfd.now w.pager.journalOff w.pager.cksumInit pages)
    (hin : w.pager.journalOff + G.journalPgSz * pages.length ≤ w₀.jfd.now.size)
    (hhas : ∀ p ∈ pages, base.Has p)
    (hsynced : BlockSynced w₀ touched G w.pager.journalOff pages)
    (hok : ∀ t, Replaying base w₀ touched (fun p => played p ∨ p ∈ pages) t →
      t.pager.journalOff = w.pager.journalOff + G.journalPgSz * pages.length →
      t.pager.cksumInit = w.pager.cksumInit → wp (playbackRecords G szJ extra) Q E t)
    (herr : ∀ rc t, rc.isIoOrFull = true → Interrupted base w₀ t → E rc t) :
    wp (playbackRecords G szJ (pages.length + extra)) Q E w := by
  have hsz := journalPgSz_pos G
  induction pages generalizing w played with
  | nil =>
      rw [List.length_nil, Nat.zero_add]
      apply hok
      · simpa only [List.not_mem_nil, or_false] using h
      · rw [List.length_nil, Nat.cast_zero, mul_zero, add_zero]
      · rfl
  | cons pgno pages ih =>
      have hnonneg := journalPgSz_mul_nonneg G pages
      rw [journalPgSz_mul_cons] at hin
      rw [List.length_cons, Nat.add_right_comm]
      simp only [playbackRecords]
      apply wp_bind
      apply wp_attempt
      apply wp_pagerPlaybackOnePage h hrecs.1 (by omega) (hhas pgno List.mem_cons_self)
        hsynced.head
      · intro t ht hoff hck
        apply ih ht
        · rw [hoff, hck]
          exact hrecs.2
        · rw [hoff]
          omega
        · exact fun p hp => hhas p (List.mem_cons_of_mem _ hp)
        · rw [hoff]
          exact hsynced.tail
        · intro u hu hend huck
          apply hok
          · simpa only [List.mem_cons, or_assoc] using hu
          · rw [hend, hoff, journalPgSz_mul_cons]
            ring
          · exact huck.trans hck
      · intro full t ht
        cases full with
        | true => exact wp_fail (herr _ t rfl ht)
        | false => exact wp_fail (herr _ t rfl ht)

/-- What a playback needs of the world it starts in. -/
structure Replayable (base : DbImage G) (w₀ : World) (touched : Int → Prop) : Prop where
  undoable : w₀.fd.All (Undoable base touched)
  exact : w₀.pager.mayWriteDatabase = false → w₀.fd.now.size = G.pageSize * base.pages

theorem Moved.interrupted {w₀ t : World} (ht : Moved w₀ t) : Interrupted base w₀ t := by
  obtain ⟨a, c, rfl⟩ := ht
  exact ⟨rfl, rfl, rfl, Undoes.refl _⟩

/-- A playback that has read the journal up to `off`. -/
structure PlayedTo (base : DbImage G) (w₀ : World) (touched played : Int → Prop) (off : Int)
    (t : World) : Prop where
  position : t.pager.journalOff = off
  begun : off = 0 ∧ Moved w₀ t ∧ (∀ p, ¬played p) ∨ 0 < off ∧ Replaying base w₀ touched played t

namespace PlayedTo

variable {w₀ : World} {touched played : Int → Prop} {off : Int}

theorem jfd (h : PlayedTo base w₀ touched played off w) : w.jfd = w₀.jfd := by
  rcases h.begun with ⟨-, ⟨a, c, rfl⟩, -⟩ | ⟨-, hrep⟩
  · rfl
  · exact hrep.jfd

theorem journalHdr (h : PlayedTo base w₀ touched played off w) :
    w.pager.journalHdr = w₀.pager.journalHdr := by
  rcases h.begun with ⟨-, ⟨a, c, rfl⟩, -⟩ | ⟨-, hrep⟩
  · rfl
  · exact hrep.journalHdr

theorem nonneg (h : PlayedTo base w₀ touched played off w) : 0 ≤ off := by
  rcases h.begun with ⟨rfl, -⟩ | ⟨hpos, -⟩
  · exact le_rfl
  · exact hpos.le

theorem interrupted (h : PlayedTo base w₀ touched played off w) {t : World} (ht : Moved w t) :
    Interrupted base w₀ t := by
  rcases h.begun with ⟨-, hmoved, -⟩ | ⟨-, hrep⟩
  · exact (hmoved.trans ht).interrupted
  · exact (hrep.moved ht).toInterrupted

end PlayedTo

/-- The first header cuts the database file off at the pages of the image. -/
theorem wp_pagerTruncate_image {w₀ : World} {touched : Int → Prop} {Q : Unit → World → Prop}
    (h₀ : Replayable base w₀ touched) (hmoved : Moved w₀ w)
    (hok : ∀ t, Replaying base w₀ touched (fun _ => False)
      { t with pager := { t.pager with dbSize := base.pages } } →
      t.pager.journalOff = w.pager.journalOff → t.pager.cksumInit = w.pager.cksumInit → Q () t)
    (herr : ∀ full t, Interrupted base w₀ t → E (IoOutcome.code full) t) :
    wp (pagerTruncate G base.pages) Q E w := by
  obtain ⟨a, c, rfl⟩ := hmoved
  have hsame : Undoes base w₀.fd w₀.fd := Undoes.refl _
  -- the world as it is, but for the size of the database file and its count
  have hstart : ∀ (s : Store) (m : Int), Undoes base w₀.fd s →
      s.now.size = G.pageSize * base.pages →
      Replaying base w₀ touched (fun _ => False) { w₀ with
        fd := s
        pager := { w₀.pager with
          journalOff := a, cksumInit := c, dbFileSize := m, dbSize := base.pages } } := by
    intro s m hall hsize
    refine ⟨⟨rfl, rfl, rfl, hall⟩, ?_, hsize, rfl, rfl, rfl, fun _ => rfl, fun _ _ => rfl, ?_⟩
    · exact (hall.all _ h₀.undoable).now.mono fun p hp => ⟨hp, not_false⟩
    · exact fun p _ hp => hp.elim
  apply wp_bind
  apply wp_getPager
  apply wp_whenever
  · intro _
    apply wp_bind
    apply wp_sqlite3OsFileSize
    · apply wp_whenever
      · intro hne
        apply wp_bind
        have hlong := h₀.undoable.now.long
        simp only [World.file] at hne ⊢
        apply wp_ite
        · intro _
          apply wp_sqlite3OsTruncate
          · apply wp_setPager
            have hcut := h₀.undoable.now.cut
            have hundoes : Undoes base w₀.fd
                (w₀.fd.truncate (G.pageSize * base.pages)) :=
              ⟨fun _ hall => hall.replace hall.now.cut.1,
                fun hrest => hrest.replace ⟨hrest.isIn.toUndoable.cut.1, hcut.2⟩⟩
            exact hok _ (hstart _ base.pages hundoes hcut.2) rfl rfl
          · exact fun full => herr full _ ⟨rfl, rfl, rfl, hsame⟩
        · intro hge
          omega
      · intro heq
        simp only [World.file, not_not] at heq
        exact hok _ (hstart _ w₀.pager.dbFileSize hsame heq) rfl rfl
    · exact fun full => herr full _ ⟨rfl, rfl, rfl, hsame⟩
  · intro hmay
    rw [Bool.not_eq_true] at hmay
    exact hok _ (hstart _ w₀.pager.dbFileSize hsame (h₀.exact hmay)) rfl rfl

/-- A header that is read for `nRec` records is followed by `count` of them. -/
def Counts (G : Geometry) (isHot : Bool) (szJ nRec journalHdr hdr count : Int) : Prop :=
  ∀ p : Pager, p.journalHdr = journalHdr → p.journalOff = hdr + G.sectorSize →
    recordCount G isHot szJ nRec p = count

/-- The first header of a journal sets the size of the database, a later one
does not. -/
theorem wp_firstHeader {w₀ t : World} {touched played : Int → Prop} {off hdr : Int}
    {cksumInit : UInt32} (h₀ : Replayable base w₀ touched)
    (h : PlayedTo base w₀ touched played off w) (hhdr : journalHdrOffset G off = hdr)
    (ht : Moved w t) (htoff : t.pager.journalOff = hdr + G.sectorSize)
    (htck : t.pager.cksumInit = cksumInit)
    (herr : ∀ full t, Interrupted base w₀ t → E (IoOutcome.code full) t) :
    wp (whenever (t.pager.journalOff = G.sectorSize) (do
        pagerTruncate G base.pages
        setPager fun p => { p with dbSize := base.pages }))
      (fun _ u => Replaying base w₀ touched played u ∧
        u.pager.journalOff = hdr + G.sectorSize ∧ u.pager.cksumInit = cksumInit) E t := by
  have hle := le_journalHdrOffset G off
  rcases h.begun with ⟨hzero, hmoved, hnone⟩ | ⟨hpos, hrep⟩
  · have hplayed : played = fun _ => False := funext fun p => eq_false (hnone p)
    apply wp_whenever
    · intro _
      apply wp_bind
      apply wp_pagerTruncate_image h₀ (hmoved.trans ht)
      · intro u hu huoff huck
        apply wp_setPager
        rw [hplayed]
        exact ⟨hu, huoff.trans htoff, huck.trans htck⟩
      · exact herr
    · intro hne
      rw [hzero, journalHdrOffset_zero] at hhdr
      omega
  · apply wp_whenever
    · intro heq
      omega
    · exact fun _ => ⟨hrep.moved ht, htoff, htck⟩

/-- One round of the loop over the headers. -/
theorem wp_playbackHeaders_round {w₀ : World} {touched played : Int → Prop} {isHot need : Bool}
    {szJ off hdr nRec : Int} {n extra : Nat} {cksumInit : UInt32} {pages : List Int}
    {Q : Unit → World → Prop} (h₀ : Replayable base w₀ touched)
    (h : PlayedTo base w₀ touched played off w) (hhdr : journalHdrOffset G off = hdr)
    (hsize : szJ = w₀.jfd.now.size)
    (hmagic : isHot = true ∨ hdr ≠ w₀.pager.journalHdr → MagicAt w₀.jfd.now hdr)
    (hnRec : Stores w₀.jfd.now (hdr + 8) 4 (sqlite3Put4byte nRec)) (hlo : 0 ≤ nRec)
    (hhi : nRec < 4294967296) (hbody : HeaderBody base w₀.jfd.now hdr cksumInit)
    (hcount : Counts G isHot szJ nRec w₀.pager.journalHdr hdr (pages.length + extra : Nat))
    (hrecs : RecordsAt base w₀.jfd.now (hdr + G.sectorSize) cksumInit pages)
    (hin : recordsEnd G hdr pages ≤ szJ) (hhas : ∀ p ∈ pages, base.Has p)
    (hsynced : BlockSynced w₀ touched G (hdr + G.sectorSize) pages)
    (hempty : need = true → w₀.pager.pPCache = .empty)
    (hnext : ∀ t need', PlayedTo base w₀ touched (fun p => played p ∨ p ∈ pages)
      (recordsEnd G hdr pages) t → t.pager.cksumInit = cksumInit → (need' = true → need = true) →
      wp (playbackRecords G szJ extra)
        (fun goOn u => wp (whenever goOn (playbackHeaders G isHot szJ n need')) Q E u) E t)
    (herr : ∀ rc t, rc.isIoOrFull = true → Interrupted base w₀ t → E rc t) :
    wp (playbackHeaders G isHot szJ (n + 1) need) Q E w := by
  have hS := G.sectorSize_bounds
  have hle := le_journalHdrOffset G off
  have hoff := h.nonneg
  have hend := recordsEnd_ge (G := G) hdr pages
  have hjfd := h.jfd
  have hfail : ∀ full t, Interrupted base w₀ t → E (IoOutcome.code full) t :=
    fun full t ht => herr _ t (IoOutcome.code_isIoOrFull full) ht
  have hposition : journalHdrOffset G w.pager.journalOff = hdr := by
    rw [h.position]
    exact hhdr
  have hsize' : szJ ≤ w.jfd.now.size := by
    rw [hjfd]
    exact hsize.le
  rw [← h.journalHdr] at hmagic
  rw [← hjfd] at hmagic hnRec hbody
  have hcounted : recordCount G isHot szJ nRec { w.pager with
      journalOff := hdr + G.sectorSize, cksumInit := cksumInit } = (pages.length + extra : Nat) :=
    hcount _ h.journalHdr rfl
  simp only [playbackHeaders]
  apply wp_bind
  apply wp_readJournalHdr hposition (by omega) hsize' hmagic hnRec hlo hhi hbody
  · apply wp_bind
    apply wp_getPager
    apply wp_bind
    apply wp_mono (wp_firstHeader h₀ h hhdr ⟨_, _, rfl⟩ rfl rfl hfail) _ fun _ _ => id
    rintro - t ⟨ht, htoff, htck⟩
    simp only [hcounted]
    have hreset : ∀ u, Replaying base w₀ touched played u → need = true →
        { u with pager := { u.pager with pPCache := .empty } } = u := by
      intro u hu hneed
      rw [← hu.empty (hempty hneed)]
    apply wp_bind
    have hrun : wp (do
        let goOn ← playbackRecords G szJ ((pages.length + extra : Nat) : Int).toNat
        whenever goOn (playbackHeaders G isHot szJ n
          (need ∧ ((pages.length + extra : Nat) : Int) ≤ 0))) Q E t := by
      rw [Int.toNat_natCast]
      apply wp_bind
      apply wp_playbackRecords ht
      · rw [htoff, htck]
        exact hrecs
      · rw [htoff, ← hsize]
        exact hin
      · exact hhas
      · rw [htoff]
        exact hsynced
      · intro u hu huoff huck
        apply hnext
        · refine ⟨?_, Or.inr ⟨?_, hu⟩⟩
          · rw [huoff, htoff]
            rfl
          · omega
        · exact huck.trans htck
        · intro hneed
          simp only [decide_eq_true_eq] at hneed
          exact hneed.1
      · exact herr
    apply wp_whenever
    · rintro ⟨hneed, -⟩
      apply wp_setPager
      rw [hreset t ht hneed]
      exact hrun
    · exact fun _ => hrun
  · exact fun full t ht => hfail full t (h.interrupted ht)

/-- The pages of a journal: all of them can be fetched, none is there twice. -/
structure Journaled (base : DbImage G) (pages : List Int) : Prop where
  nodup : pages.Nodup
  has : ∀ p ∈ pages, base.Has p

/-- There are no more of them than the image has pages. -/
theorem Journaled.length_le {pages : List Int} (h : Journaled base pages) :
    (pages.length : Int) ≤ base.pages := by
  have hpos := base.pages_pos
  have hcard : pages.toFinset.card ≤ (Finset.Icc 1 base.pages).card := by
    apply Finset.card_le_card
    intro p hp
    obtain ⟨hlo, hhi, -⟩ := h.has p (List.mem_toFinset.mp hp)
    exact Finset.mem_Icc.mpr ⟨hlo, hhi⟩
  rw [List.toFinset_card_of_nodup h.nodup, Int.card_Icc] at hcard
  omega

theorem Journaled.append {pages pages' : List Int} (h : Journaled base (pages ++ pages')) :
    Journaled base pages ∧ Journaled base pages' ∧ ∀ p ∈ pages', p ∉ pages := by
  obtain ⟨hleft, hright, hdisj⟩ := List.nodup_append'.mp h.nodup
  refine ⟨⟨hleft, ?_⟩, ⟨hright, ?_⟩, fun p hp hp' => hdisj hp' hp⟩
  · exact fun p hp => h.has p (List.mem_append_left _ hp)
  · exact fun p hp => h.has p (List.mem_append_right _ hp)

/-- All of a synced part of the journal is played back. -/
theorem wp_playbackHeaders_segments {w₀ : World} {touched played : Int → Prop} {isHot need : Bool}
    {szJ off : Int} {n : Nat} {segs : List Segment} {Q : Unit → World → Prop}
    (h₀ : Replayable base w₀ touched) (h : PlayedTo base w₀ touched played off w)
    (hsegs : Segments base w₀.jfd.now off segs) (hsize : szJ = w₀.jfd.now.size)
    (hin : journalEnd G off segs ≤ szJ) (hpages : Journaled base (pagesOf segs))
    (hmay : segs ≠ [] → w₀.pager.mayWriteDatabase = true ∧
      journalEnd G off segs ≤ w₀.pager.journalHdr) (htouched : ∀ p ∈ pagesOf segs, touched p)
    (hempty : segs ≠ [] → need = true → w₀.pager.pPCache = .empty)
    (hnext : ∀ t need', PlayedTo base w₀ touched (fun p => played p ∨ p ∈ pagesOf segs)
      (journalEnd G off segs) t → (need' = true → need = true) →
      wp (playbackHeaders G isHot szJ n need') Q E t)
    (herr : ∀ rc t, rc.isIoOrFull = true → Interrupted base w₀ t → E rc t) :
    wp (playbackHeaders G isHot szJ (n + segs.length) need) Q E w := by
  have hS := G.sectorSize_bounds
  have hsz := journalPgSz_pos G
  induction segs generalizing off played need w with
  | nil =>
      apply hnext
      · simpa only [pagesOf, List.flatMap_nil, List.not_mem_nil, or_false, journalEnd] using h
      · exact id
  | cons seg segs ih =>
      obtain ⟨hheader, hrecs, hrest⟩ := hsegs
      have hoff := h.nonneg
      have hhdr := le_journalHdrOffset G off
      have hge := recordsEnd_ge (G := G) (journalHdrOffset G off) seg.pages
      have hnonneg : 0 ≤ recordsEnd G (journalHdrOffset G off) seg.pages := by omega
      have hend := le_journalEnd (G := G) hnonneg segs
      obtain ⟨hmayWrite, hjournalHdr⟩ := hmay (List.cons_ne_nil _ _)
      simp only [journalEnd] at hin hjournalHdr
      have hsplit : Journaled base (seg.pages ++ pagesOf segs) := hpages
      obtain ⟨hseg, hothers, -⟩ := hsplit.append
      have hlen := hseg.length_le
      have hmax := base.pages_le
      simp only [PAGER_MAX_PGNO] at hmax
      have hcount : Counts G isHot szJ seg.pages.length w₀.pager.journalHdr
          (journalHdrOffset G off) (seg.pages.length + 0 : Nat) := by
        intro p hp hpoff
        have hne : ¬(seg.pages.length : Int) = 0xffffffff := by omega
        simp only [recordCount]
        rw [if_neg hne, if_neg, Nat.add_zero]
        rintro ⟨-, -, heq⟩
        omega
      apply wp_playbackHeaders_round h₀ h rfl hsize (fun _ => hheader.magic) hheader.nRec
        (Int.natCast_nonneg _) (by omega) hheader.body hcount hrecs (by omega) hseg.has
      · refine Or.inl ⟨hmayWrite, ?_, ?_⟩
        · exact hend.trans hjournalHdr
        · exact fun p hp => htouched p (List.mem_append_left _ hp)
      · exact hempty (List.cons_ne_nil _ _)
      · intro t need' ht _ hneed
        apply wp_pure
        refine wp_whenever (fun _ => ?_) fun hfalse => absurd rfl hfalse
        apply ih ht hrest hin hothers
        · exact fun _ => ⟨hmayWrite, hjournalHdr⟩
        · exact fun p hp => htouched p (List.mem_append_right _ hp)
        · exact fun _ hneed' => hempty (List.cons_ne_nil _ _) (hneed hneed')
        · intro u need'' hu hneed'
          apply hnext
          · simpa only [pagesOf, List.flatMap_cons, List.mem_append, or_assoc, journalEnd] using hu
          · exact fun hneed'' => hneed (hneed' hneed'')
      · exact herr

/-- The pages in `played` are back, and others may be. -/
def PlayedBack (base : DbImage G) (w₀ : World) (touched played : Int → Prop) (t : World) : Prop :=
  ∃ more : Int → Prop, (∀ p, played p → more p) ∧ Replaying base w₀ touched more t

theorem Replaying.playedBack {w₀ t : World} {touched played : Int → Prop}
    (h : Replaying base w₀ touched played t) : PlayedBack base w₀ touched played t :=
  ⟨played, fun _ hp => hp, h⟩

namespace PlayedBack

variable {w₀ t u : World} {touched played : Int → Prop}

theorem toInterrupted (h : PlayedBack base w₀ touched played t) : Interrupted base w₀ t := by
  obtain ⟨more, -, hrep⟩ := h
  exact hrep.toInterrupted

theorem moved (h : PlayedBack base w₀ touched played t) (hu : Moved t u) :
    PlayedBack base w₀ touched played u := by
  obtain ⟨more, hmore, hrep⟩ := h
  exact ⟨more, hmore, hrep.moved hu⟩

theorem journalHdr (h : PlayedBack base w₀ touched played t) :
    t.pager.journalHdr = w₀.pager.journalHdr := by
  obtain ⟨more, -, hrep⟩ := h
  exact hrep.journalHdr

end PlayedBack

/-- The world after a playback of the journal up to `off`. -/
def Replayed (base : DbImage G) (w₀ : World) (touched played : Int → Prop) (off : Int) (t : World) :
    Prop :=
  off = 0 ∧ Moved w₀ t ∧ (∀ p, ¬played p) ∨ 0 < off ∧ PlayedBack base w₀ touched played t

theorem PlayedTo.replayed {w₀ t : World} {touched played : Int → Prop} {off : Int}
    (h : PlayedTo base w₀ touched played off w) (ht : Moved w t) :
    Replayed base w₀ touched played off t := by
  rcases h.begun with ⟨hzero, hmoved, hnone⟩ | ⟨hpos, hrep⟩
  · exact Or.inl ⟨hzero, hmoved.trans ht, hnone⟩
  · exact Or.inr ⟨hpos, (hrep.moved ht).playedBack⟩

/-- Where no header is, the playback ends. -/
theorem wp_playbackHeaders_end {w₀ : World} {touched played : Int → Prop} {isHot need : Bool}
    {szJ off : Int} {n : Nat} {Q : Unit → World → Prop}
    (h : PlayedTo base w₀ touched played off w) (hsize : szJ = w₀.jfd.now.size)
    (hend : journalHdrOffset G off + G.sectorSize ≤ szJ →
      isHot = true ∧ ¬MagicAt w₀.jfd.now (journalHdrOffset G off))
    (hok : ∀ t, Replayed base w₀ touched played off t → Q () t)
    (herr : ∀ rc t, rc.isIoOrFull = true → Interrupted base w₀ t → E rc t) :
    wp (playbackHeaders G isHot szJ n need) Q E w := by
  have hjfd := h.jfd
  cases n with
  | zero => exact wp_pure (hok w (h.replayed (Moved.refl w)))
  | succ n =>
      apply wp_bind
      apply wp_readJournalHdr_end (congrArg (journalHdrOffset G) h.position)
      · rw [hjfd]
        exact hsize.le
      · intro hroom
        obtain ⟨hhot, hno⟩ := hend hroom
        rw [hjfd]
        exact ⟨Or.inl hhot, hno⟩
      · exact fun t ht => wp_pure (hok t (h.replayed ht))
      · exact fun full t ht => herr _ t (IoOutcome.code_isIoOrFull full) (h.interrupted ht)

/-! ## Behind the end of the journal -/

theorem sqlite3Get4byte_nonneg (p : Bytes) : 0 ≤ sqlite3Get4byte p := by
  simp only [sqlite3Get4byte]
  omega

/-- A record at `off` that is played back and does not hold the page of the image. -/
structure Spoils (base : DbImage G) (f : ParentFile) (cksumInit : UInt32) (off : Int) : Prop
    extends PassesAt G f cksumInit off where
  pages : recordPgno f off ≤ base.pages
  differs : ¬∀ k, 0 ≤ k → k < G.pageSize →
    f.byte (off + 4 + k) = base.page (recordPgno f off) k

/-- A record that does not spoil the image is not played back, or it puts a page
of the image back. -/
theorem wp_pagerPlaybackOnePage_stale {w₀ : World} {touched played : Int → Prop}
    {Q : Bool → World → Prop} (h : PlayedBack base w₀ touched played w)
    (hall : ∀ p, touched p → played p)
    (hno : ¬Spoils base w.jfd.now w.pager.cksumInit w.pager.journalOff)
    (hok : ∀ more t, PlayedBack base w₀ touched played t →
      t.pager.cksumInit = w.pager.cksumInit →
      t.pager.journalOff = w.pager.journalOff + G.journalPgSz →
      w.pager.journalOff ≤ w.jfd.now.size → Q more t)
    (herr : ∀ rc t, rc.isIoOrFull = true → Interrupted base w₀ t →
      (rc = .ioerrShortRead → PlayedBack base w₀ touched played t) → E rc t) :
    wp (pagerPlaybackOnePage G) Q E w := by
  have hP := G.pageSize_bounds
  rcases em (PassesAt G w.jfd.now w.pager.cksumInit w.pager.journalOff ∧
      recordPgno w.jfd.now w.pager.journalOff ≤ base.pages) with ⟨hpass, hle⟩ | hskip
  · -- the record holds a page of the image
    have hdata := not_not.mp fun hdiffers => hno ⟨hpass, hle, hdiffers⟩
    have hhas : base.Has (recordPgno w.jfd.now w.pager.journalOff) := by
      have hnonneg : 0 ≤ recordPgno w.jfd.now w.pager.journalOff := sqlite3Get4byte_nonneg _
      have hne := hpass.number.1
      exact ⟨by omega, hle, hpass.number.2⟩
    have hin := hpass.inside
    have hsz := journalPgSz_pos G
    obtain ⟨others, hothers, hrep⟩ := h
    apply wp_pagerPlaybackOnePage_passes hrep hpass rfl hhas hdata
    · exact fun ht hnot => absurd (hothers _ (hall _ ht)) hnot
    · intro t ht htoff htck
      exact hok true t ⟨_, fun p hp => Or.inl (hothers p hp), ht⟩ htck htoff (by omega)
    · intro full t ht
      apply herr _ t (IoOutcome.code_isIoOrFull full) ht
      cases full with
      | true => exact nofun
      | false => exact nofun
  · have hfail : ∀ rc t, rc.isIoOrFull = true → Moved w t → E rc t := fun rc t hrc ht =>
      herr rc t hrc (h.moved ht).toInterrupted fun _ => h.moved ht
    have hdbSize : w.pager.dbSize = base.pages := by
      obtain ⟨others, -, hrep⟩ := h
      exact hrep.dbSize
    apply wp_bind
    apply wp_getPager
    apply wp_bind
    apply wp_read32bits_any _ fun rc hrc => hfail rc _ hrc (Moved.refl w)
    intro hnumber
    apply wp_bind
    apply wp_sqlite3OsRead _ fun full =>
      hfail _ _ (IoOutcome.code_isIoOrFull full) (Moved.refl w)
    simp only [World.file] at hnumber ⊢
    apply wp_ite
    · exact fun _ => wp_fail (hfail _ _ rfl (Moved.refl w))
    intro _
    apply wp_bind
    apply wp_setPager
    have hmoved : Moved w { w with
        pager := { w.pager with journalOff := w.pager.journalOff + G.journalPgSz } } :=
      ⟨_, _, rfl⟩
    have hpast : ∀ more, Q more { w with
        pager := { w.pager with journalOff := w.pager.journalOff + G.journalPgSz } } :=
      fun more => hok more _ (h.moved hmoved) rfl rfl (by omega)
    apply wp_ite
    · exact fun _ => wp_pure (hpast false)
    intro hvalid
    apply wp_ite
    · exact fun _ => wp_pure (hpast true)
    intro hinside
    apply wp_bind
    apply wp_read32bits_any _ fun rc hrc => hfail rc _ hrc hmoved
    intro hcksum
    simp only [World.file] at hcksum ⊢
    apply wp_ite
    · exact fun _ => wp_pure (hpast false)
    · intro hpass
      rw [hdbSize] at hinside
      exact absurd ⟨⟨by omega, not_or.mp hvalid, not_not.mp hpass⟩, not_lt.mp hinside⟩ hskip

/-- Records that spoil nothing are read, however many there are. -/
theorem wp_playbackRecords_stale {w₀ : World} {touched played : Int → Prop} {szJ off : Int}
    {cksumInit : UInt32} {Q : Bool → World → Prop} (n : Nat)
    (h : PlayedBack base w₀ touched played w) (hall : ∀ p, touched p → played p)
    (hsize : szJ = w₀.jfd.now.size)
    (hoff : w.pager.journalOff = off) (hck : w.pager.cksumInit = cksumInit)
    (hno : ∀ k : Nat, ¬Spoils base w₀.jfd.now cksumInit (off + G.journalPgSz * k))
    (hok : ∀ goOn t, PlayedBack base w₀ touched played t →
      (goOn = true → off ≤ t.pager.journalOff) → Q goOn t)
    (herr : ∀ rc t, rc.isIoOrFull = true → Interrupted base w₀ t → E rc t) :
    wp (playbackRecords G szJ n) Q E w := by
  have hsz := journalPgSz_pos G
  induction n generalizing w off with
  | zero => exact wp_pure (hok true w h fun _ => hoff.ge)
  | succ n ih =>
      have hjfd := h.toInterrupted.jfd
      have hfirst := hno 0
      rw [Nat.cast_zero, mul_zero, add_zero, ← hoff, ← hck, ← hjfd] at hfirst
      simp only [playbackRecords]
      apply wp_bind
      apply wp_attempt
      apply wp_pagerPlaybackOnePage_stale h hall hfirst
      · intro more t ht htck htoff hin
        rw [hjfd] at hin
        cases more with
        | true =>
            apply ih ht htoff (htck.trans hck)
            · intro k
              have hlater := hno (k + 1)
              have hplace : off + G.journalPgSz * ((k + 1 : Nat) : Int) =
                  w.pager.journalOff + G.journalPgSz + G.journalPgSz * k := by
                push_cast
                rw [hoff]
                ring
              rwa [hplace] at hlater
            · exact fun goOn u hu hle => hok goOn u hu fun hgo => by have := hle hgo; omega
        | false =>
            apply wp_bind
            apply wp_setPager
            apply wp_pure
            apply hok true _ (ht.moved ⟨szJ, _, rfl⟩)
            exact fun _ => by simp only; omega
      · intro rc t hrc hint hshort
        cases rc with
        | ioerrShortRead => exact wp_pure (hok false t (hshort rfl) nofun)
        | full => exact wp_fail (herr _ t rfl hint)
        | ioerr => exact wp_fail (herr _ t rfl hint)
        | cantopen => cases hrc
        | corrupt => cases hrc
        | abort => cases hrc

/-- Behind the last record the playback goes on where no record spoils the image. -/
theorem wp_playbackHeaders_stale {w₀ : World} {touched played : Int → Prop} {isHot : Bool}
    {szJ off : Int} {n : Nat} {Q : Unit → World → Prop}
    (h : PlayedBack base w₀ touched played w) (hall : ∀ p, touched p → played p)
    (hoff : off ≤ w.pager.journalOff) (hpos : 0 < off) (hsize : szJ = w₀.jfd.now.size)
    (hno : ∀ hdr, G.sectorSize ∣ hdr → off ≤ hdr →
      hdr = w₀.pager.journalHdr ∨ MagicAt w₀.jfd.now hdr → ∀ k : Nat, ¬Spoils base
        w₀.jfd.now (headerCksum w₀.jfd.now hdr) (hdr + G.sectorSize + G.journalPgSz * k))
    (hok : ∀ t, PlayedBack base w₀ touched played t → Q () t)
    (herr : ∀ rc t, rc.isIoOrFull = true → Interrupted base w₀ t → E rc t) :
    wp (playbackHeaders G isHot szJ n false) Q E w := by
  have hS := G.sectorSize_bounds
  induction n generalizing w with
  | zero => exact wp_pure (hok w h)
  | succ n ih =>
      have hhdr := le_journalHdrOffset G w.pager.journalOff
      have hjfd := h.toInterrupted.jfd
      simp only [playbackHeaders]
      apply wp_bind
      apply wp_readJournalHdr_any rfl
      · rw [hjfd]
        exact hsize.le
      · exact fun t ht => wp_pure (hok t (h.moved ht))
      · intro nRec mxPg t ht htoff htck hheader hroom
        rw [hjfd] at htck hheader
        rw [h.journalHdr] at hheader
        apply wp_bind
        apply wp_getPager
        apply wp_bind
        apply wp_whenever
        · intro heq
          omega
        intro _
        apply wp_bind
        apply wp_whenever
        · rintro ⟨hfalse, -⟩
          cases hfalse
        intro _
        apply wp_bind
        apply wp_playbackRecords_stale _ (h.moved ht) hall hsize htoff htck
        · exact hno _ (journalHdrOffset_dvd G _) (hoff.trans hhdr) hheader
        · intro goOn u hu hle
          apply wp_whenever
          · intro hgo
            have hpast := hle hgo
            exact ih hu (by omega)
          · exact fun _ => hok u hu
        · exact herr
      · exact fun rc t hrc ht => herr rc t hrc (h.moved ht).toInterrupted

end SqliteFs
