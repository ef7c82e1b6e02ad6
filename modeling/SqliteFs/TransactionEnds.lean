import SqliteFs.Commits

/-!
The end of a transaction. A commit is final when the journal is deleted;
before that the journal is rolled back. Either way the pager is a reader again
or in the error state, out of which `pagerUnlock` leads.
-/

namespace SqliteFs

open Lib Prog

variable {G : Geometry} {base new : DbImage G} {w : World} {E : Code → World → Prop}
  {segs : List Segment} {cur : List Int}

/-! ## The second phase of a commit -/

/-- A reader without a journal. -/
structure Ended (base : DbImage G) (u : World) : Prop extends Reading base u where
  eState : u.pager.eState = .reader
  journalExists : u.journalExists = false

/-- Without a journal the image is that of the database file. -/
theorem Ended.of_deleted (hcode : w.pager.errCode = none) (hsize : w.pager.dbSize = base.pages)
    (hin : w.pager.pInJournal = none) (hcount : w.pager.changeCountDone = false)
    (hrest : AtRest base w.fd) (hjfd : w.jfd = .settled .blank) (hexists : w.journalExists = false)
    (hcache : Coherent G w.fd.now w.pager.pPCache) (hstate : w.pager.eState = .reader)
    (hclosed : w.pager.jfdOpen = false) : Ended base w := by
  have hblank : ¬MagicAt ParentFile.blank 0 := fun h => absurd (magicAt_byte h) (by decide)
  refine ⟨⟨hcode, hsize, hin, hcount, hrest, ?_, fun _ => hjfd, hcache, Or.inl ⟨hstate, hclosed⟩⟩,
    hstate, hexists⟩
  rw [hjfd]
  exact Versions.all_settled hblank

/-- The pages in front of a cut stay. -/
theorem filePage_cut {f : ParentFile} {n p : Int} (hle : p ≤ n) :
    SamePage G (filePage G (f.cut (G.pageSize * n)) p) (filePage G f p) := by
  have hP := G.pageSize_bounds
  intro k hlo hhi
  apply ParentFile.cut_byte
  have hend := pageOfst_end (G := G) p
  have hmul : G.pageSize * p ≤ G.pageSize * n := mul_le_mul_of_nonneg_left hle (by omega)
  omega

/-- What a database file longer than its image is cut off to. -/
theorem AtRest.truncate {f : ParentFile} (h : Undoable new (fun _ => False) f)
    (hwhole : WholePages G f.size) :
    AtRest new (Store.truncate (.settled f) (G.pageSize * new.pages)) := by
  constructor
  · exact (Versions.all_settled h).replace h.cut.1
  · exact (Versions.all_settled (p := fun v : ParentFile => WholePages G v.size) hwhole).replace
      ⟨_, h.cut.2, new.validPages⟩
  · exact (Versions.ordered_settled _ _).replace (Versions.all_settled (min_le_left _ _))
  · exact ⟨h.cut.1, h.cut.2⟩

/-- How a commit that is not reported may have ended: the journal is still
there, or the file is still longer than the new image. -/
def Unfinished (base new : DbImage G) (u : World) : Prop :=
  Broken base u ∧ u.journalExists = true ∨
    ∃ long : DbImage G, long.Extends new ∧ Broken long u ∧ u.journalExists = false

theorem Finished.whole (h : Finished base new segs w) : WholePages G w.fd.now.size :=
  ⟨_, h.fdSize, h.dbFileSize⟩

theorem Finished.pages_le (h : Finished base new segs w) : new.pages ≤ w.pager.dbFileSize := by
  have hlong := h.isIn.long
  rw [h.fdSize] at hlong
  exact le_of_mul_le_mul_left hlong (by linarith only [G.pageSize_bounds.1])

/-- The cache is in front of every file that has the pages of the new image. -/
theorem Finished.coherent (h : Finished base new segs w) {f : ParentFile}
    (hf : ∀ p, p ≤ new.pages → SamePage G (filePage G f p) (filePage G w.fd.now p)) :
    Coherent G f (w.pager.pPCache.sqlite3PcacheCleanAll.sqlite3PcacheTruncate w.pager.dbSize) := by
  apply coherent_truncate h.number h.writeable
  intro p pPg hp hle
  rw [h.dbSize] at hle
  exact (h.data p pPg hp hle).trans (hf p hle).symm

/-- Without its journal the file is at rest, though it may be too long. -/
theorem Finished.at_rest_longer (h : Finished base new segs w) :
    ∃ long : DbImage G, long.Extends new ∧ AtRest long w.fd := by
  obtain ⟨long, hext, hin⟩ := h.isIn.rebase h.whole
  refine ⟨long, hext, ?_⟩
  rw [h.fd]
  exact .settled hin

/-- Deleting the journal commits the new image. -/
theorem wp_sqlite3PagerCommitPhaseTwo {Q : Unit → World → Prop} (h : Finished base new segs w)
    (hok : ∀ u, Ended new u → Q () u) (herr : ∀ rc u, Unfinished base new u → E rc u) :
    wp (sqlite3PagerCommitPhaseTwo G) Q E w := by
  have hP : 0 < G.pageSize := by linarith only [G.pageSize_bounds.1]
  have hstate : w.pager.eState ≠ .reader := by
    rw [h.finished]
    exact EState.noConfusion
  apply wp_bind
  apply wp_getPager
  simp only [h.errCode]
  apply wp_pagerError
  apply wp_pagerEndTransaction hstate
  · intro J b _ hdeleted
    obtain ⟨rfl, rfl⟩ := hdeleted h.jfdOpen
    -- an error after the deletion leaves a file that is too long
    have hbroken : ∀ full u, u.fd = w.fd → u.jfd = .settled .blank → u.journalExists = false →
        ((IoOutcome.code full).isIoOrFull = true → E (IoOutcome.code full) { u with
          pager := { u.pager with errCode := some (IoOutcome.code full), eState := .error } }) ∧
        ((IoOutcome.code full).isIoOrFull = false → E (IoOutcome.code full) u) := by
      intro full u hfd hjfd hexists
      obtain ⟨long, hext, hrest⟩ := h.at_rest_longer
      have hdurable : Durable long u := .deleted (hfd ▸ hrest) hjfd
      constructor
      · intro _
        exact herr _ _ (Or.inr ⟨long, hext, ⟨hdurable.congr rfl rfl rfl, rfl, rfl⟩, hexists⟩)
      · intro hfalse
        rw [IoOutcome.code_isIoOrFull] at hfalse
        cases hfalse
    apply wp_whenever
    · rintro ⟨-, hlt⟩
      apply wp_bind
      apply wp_getPager
      apply wp_whenever
      · intro _
        apply wp_bind
        apply wp_sqlite3OsFileSize
        · apply wp_whenever
          · intro _
            apply wp_bind
            apply wp_ite
            · intro _
              apply wp_sqlite3OsTruncate
              · apply wp_setPager
                apply hok
                apply Ended.of_deleted
                · exact h.errCode
                · exact h.dbSize
                · rfl
                · rfl
                · simp only [World.file, World.setFile]
                  rw [h.fd, h.dbSize]
                  exact AtRest.truncate h.isIn h.whole
                · rfl
                · rfl
                · apply h.coherent
                  intro p hle
                  rw [h.dbSize]
                  exact filePage_cut hle
                · rfl
                · rfl
              · exact fun full => hbroken full _ rfl rfl rfl
            · intro hge
              simp only [World.file, h.fdSize] at hge
              exact absurd (mul_lt_mul_of_pos_left hlt hP) hge
          · intro heq
            simp only [World.file, h.fdSize] at heq
            have hmul := mul_lt_mul_of_pos_left hlt hP
            omega
        · exact fun full => hbroken full _ rfl rfl rfl
      · intro hno
        apply absurd _ hno
        simp only [Pager.mayWriteDatabase, h.finished, EState.rank]
        decide
    · intro hge
      have hle : w.pager.dbFileSize ≤ w.pager.dbSize := by
        by_contra hlt
        exact hge ⟨rfl, not_le.mp hlt⟩
      have hsize : w.fd.now.size = G.pageSize * new.pages := by
        rw [h.fdSize, le_antisymm (hle.trans h.dbSize.le) h.pages_le]
      have hrest : AtRest new w.fd := by
        rw [h.fd]
        exact .settled ⟨h.isIn, hsize⟩
      apply hok
      apply Ended.of_deleted
      · exact h.errCode
      · exact h.dbSize
      · rfl
      · rfl
      · exact hrest
      · rfl
      · rfl
      · exact h.coherent fun _ _ => SamePage.refl _
      · rfl
      · rfl
  · intro _ full
    constructor
    · exact fun _ => herr _ _ (Or.inl ⟨⟨h.toDurable.congr rfl rfl rfl, rfl, rfl⟩, h.journalExists⟩)
    · intro hfalse
      rw [IoOutcome.code_isIoOrFull] at hfalse
      cases hfalse

/-- A transaction that wrote nothing ends. -/
theorem wp_pagerEndTransaction_locked {bCommit : Bool} {Q : Unit → World → Prop}
    (h : Reading base w) (hlocked : w.pager.eState = .writerLocked)
    (hok : ∀ u, Reading base u → u.pager.eState = .reader → Q () u)
    (herr : ∀ full u, Durable base u → E (IoOutcome.code full) u) :
    wp (pagerEndTransaction G bCommit) Q E w := by
  obtain ⟨-, -, hfile, -⟩ := h.state.resolve_left (by
    rintro ⟨hreader, -⟩
    rw [hreader] at hlocked
    cases hlocked)
  have hcache := h.cache.truncate w.pager.dbSize
  apply wp_pagerEndTransaction
  · rw [hlocked]
    exact EState.noConfusion
  · intro J b hclosed hopen
    apply wp_whenever
    · rintro ⟨-, hlt⟩
      rw [h.dbSize, hfile] at hlt
      exact absurd hlt (lt_irrefl _)
    intro _
    apply hok _ _ rfl
    cases hcase : w.pager.jfdOpen with
    | false =>
        obtain ⟨rfl, rfl⟩ := hclosed hcase
        exact ⟨h.errCode, h.dbSize, rfl, rfl, h.atRest, h.cold, h.absent, hcache, Or.inl ⟨rfl, rfl⟩⟩
    | true =>
        obtain ⟨rfl, rfl⟩ := hopen hcase
        apply Ended.toReading
        apply Ended.of_deleted
        · exact h.errCode
        · exact h.dbSize
        · rfl
        · rfl
        · exact h.atRest
        · rfl
        · rfl
        · exact hcache
        · rfl
        · rfl
  · exact fun _ full => herr full _ (h.durable.congr rfl rfl rfl)

/-- A transaction that wrote nothing is committed. -/
theorem wp_sqlite3PagerCommitPhaseTwo_locked {Q : Unit → World → Prop} (h : Reading base w)
    (hlocked : w.pager.eState = .writerLocked)
    (hok : ∀ u, Reading base u → u.pager.eState = .reader → Q () u)
    (herr : ∀ rc u, Broken base u → E rc u) : wp (sqlite3PagerCommitPhaseTwo G) Q E w := by
  apply wp_bind
  apply wp_getPager
  simp only [h.errCode]
  apply wp_pagerError
  apply wp_pagerEndTransaction_locked h hlocked hok
  intro full u hu
  constructor
  · exact fun _ => herr _ _ ⟨hu.congr rfl rfl rfl, rfl, rfl⟩
  · intro hfalse
    rw [IoOutcome.code_isIoOrFull] at hfalse
    cases hfalse

/-! ## Rollback -/

/-- A transaction that wrote nothing is rolled back. -/
theorem wp_sqlite3PagerRollback_reading {Q : Unit → World → Prop} (h : Reading base w)
    (hok : ∀ u, Reading base u → u.pager.eState = .reader → Q () u)
    (herr : ∀ rc u, Broken base u → E rc u) : wp (sqlite3PagerRollback G) Q E w := by
  apply wp_bind
  apply wp_getPager
  simp only [h.errCode]
  rcases h.state with ⟨hreader, -⟩ | ⟨hlocked, -⟩
  · rw [hreader]
    exact wp_pure (hok w h hreader)
  · simp only [hlocked, EState.rank, Nat.reduceLeDiff, if_false, or_true, if_true, lt_irrefl]
    apply wp_bind
    apply wp_attempt
    apply wp_pagerEndTransaction_locked h hlocked
    · intro u hu hreader
      apply wp_pagerError
      exact wp_settle (hok u hu hreader)
    · intro full u hu
      apply wp_pagerError
      apply wp_settle
      constructor
      · exact fun _ => herr _ _ ⟨hu.congr rfl rfl rfl, rfl, rfl⟩
      · intro hfalse
        rw [IoOutcome.code_isIoOrFull] at hfalse
        cases hfalse

/-- A playback that was interrupted can be repeated. -/
theorem Interrupted.durable {u : World} (h : Interrupted base w u) (hw : Durable base w) :
    Durable base u := by
  constructor
  · rw [h.jfd]
    intro g hg
    obtain ⟨segs, hhot, hall, hexact⟩ := hw.recoverable g hg
    exact ⟨segs, hhot, h.fd.all _ hall, fun hnil => h.fd.keeps (hexact hnil)⟩
  · rw [h.jfd, h.journalExists]
    exact hw.absent
  · rw [h.jfd]
    exact hw.cold

/-- After the playback the cache has the pages of the image: those that were
played back, and those that the transaction had not put into the journal. -/
theorem RolledBack.coherent {u : World} (h : Doomed base segs cur w)
    (hu : RolledBack base w (fun p => p ∈ pagesOf segs) (fun p => p ∈ pagesOf segs ∨ p ∈ cur)
      w.pager.journalOff u) (hin : base.IsIn u.fd.now) : Coherent G u.fd.now u.pager.pPCache := by
  obtain ⟨t, ht, hnow, cc, hpager⟩ := hu.replayed
  have hpos := h.live.journalOff_pos
  obtain ⟨-, more, hmore, hrep⟩ := ht.resolve_left fun hzero => absurd hzero.1 hpos.ne'
  -- every page was in the cache, with the same flag
  have hcached : ∀ p pPg, t.pager.pPCache.page p = some pPg →
      ∃ old, w.pager.pPCache.page p = some old ∧ old.writeable = pPg.writeable := by
    intro p pPg hp
    have hmap := hrep.cached p
    rw [hp, Option.map_some] at hmap
    obtain ⟨old, hold, hflag⟩ := Option.map_eq_some_iff.mp hmap.symm
    exact ⟨old, hold, hflag⟩
  rw [hpager]
  apply coherent_truncate
  · intro p pPg hp
    obtain ⟨old, hold, -⟩ := hcached p pPg hp
    exact h.number p old hold
  · intro p pPg hp htrue
    obtain ⟨old, hold, hflag⟩ := hcached p pPg hp
    exact hrep.dirty ▸ h.writeable p old hold (hflag.trans htrue)
  · intro p pPg hp hle
    have hsize : p ≤ base.pages := hle.trans hrep.dbSize.le
    obtain ⟨old, hold, -⟩ := hcached p pPg hp
    have hfile := hin.toUndoable.filePage (h.number p old hold).1 hsize not_false
    apply SamePage.trans _ hfile.symm
    rcases em (more p) with hplayed | hplayed
    · exact hrep.reloaded p pPg hplayed hp
    · apply h.unlogged p pPg _ hsize
      · exact fun hmem => hplayed (hmore p (List.mem_append.mp hmem))
      · exact (hrep.unplayed p hplayed).symm.trans hp

/-- What `wp_sqlite3PagerRollback` makes of a rollback that came to its end. -/
theorem RolledBack.ended {u : World} (h : Doomed base segs cur w)
    (hmay : w.pager.mayWriteDatabase = true ↔ segs ≠ [])
    (hu : RolledBack base w (fun p => p ∈ pagesOf segs) (fun p => p ∈ pagesOf segs ∨ p ∈ cur)
      w.pager.journalOff u) : Ended base u := by
  have hpos := h.live.journalOff_pos
  have hrest : AtRest base u.fd := by
    apply hu.atRest (fun p => Or.inl) h.exact fun hzero => absurd hzero hpos.ne'
    rcases eq_or_ne segs [] with hnil | hne
    · exact Or.inl hnil
    · exact Or.inr (hmay.mpr hne)
  have hcoherent := hu.coherent h hrest.isIn
  obtain ⟨t, ht, hnow, cc, hpager⟩ := hu.replayed
  obtain ⟨-, more, -, hrep⟩ := id (ht.resolve_left fun hzero => absurd hzero.1 hpos.ne')
  have hcode : u.pager.errCode = none := by
    simp only [hpager, Pager.flushed, Pager.ended]
    rw [ht.frame]
    exact h.errCode
  have hsize : u.pager.dbSize = base.pages := by
    rw [hpager]
    exact hrep.dbSize
  apply Ended.of_deleted hcode hsize _ _ hrest hu.jfd hu.journalExists hcoherent
  · rw [hpager]
    rfl
  · rw [hpager]
    rfl
  · rw [hpager]
    rfl
  · rw [hpager]
    rfl

theorem Doomed.mayWrite (h : Doomed base segs cur w) :
    w.pager.mayWriteDatabase = true ↔ segs ≠ [] := by
  rcases h.eState with ⟨hstate, hnil⟩ | ⟨hstate | hstate, hne⟩
  · simp only [Pager.mayWriteDatabase, hstate, EState.rank, hnil, ne_eq, not_true_eq_false,
      iff_false]
    decide
  · simp only [Pager.mayWriteDatabase, hstate, EState.rank, ne_eq, hne, not_false_eq_true, iff_true]
    decide
  · simp only [Pager.mayWriteDatabase, hstate, EState.rank, ne_eq, hne, not_false_eq_true, iff_true]
    decide

theorem Doomed.rank (h : Doomed base segs cur w) :
    EState.writerLocked.rank < w.pager.eState.rank ∧ w.pager.eState ≠ .error := by
  rcases h.eState with ⟨hstate, -⟩ | ⟨hstate | hstate, -⟩
  · rw [hstate]
    exact ⟨Nat.lt_succ_self _, EState.noConfusion⟩
  · rw [hstate]
    exact ⟨Nat.lt_of_sub_eq_succ rfl, EState.noConfusion⟩
  · rw [hstate]
    exact ⟨Nat.lt_of_sub_eq_succ rfl, EState.noConfusion⟩

/-- A transaction is rolled back from its journal, or the pager is in the error
state with everything there to do it again. -/
theorem wp_sqlite3PagerRollback {Q : Unit → World → Prop} (h : Doomed base segs cur w)
    (hfree : MasterFree G w) (hfresh : NoStaleRecord base w) (hok : ∀ u, Ended base u → Q () u)
    (herr : ∀ rc u, Broken base u → E rc u) : wp (sqlite3PagerRollback G) Q E w := by
  obtain ⟨hrank, -⟩ := h.rank
  have hne : ∀ s : EState, s.rank ≤ EState.writerLocked.rank → w.pager.eState ≠ s := by
    rintro s hs rfl
    exact absurd hrank (not_lt.mpr hs)
  have hreplayable : Replayable base w fun p => p ∈ pagesOf segs := by
    refine ⟨h.undoable, ?_⟩
    intro hmay
    apply DbImage.IsIn.size
    apply AtRest.isIn
    apply h.exact
    by_contra hnil
    rw [h.mayWrite.mpr hnil] at hmay
    cases hmay
  apply wp_bind
  apply wp_getPager
  simp only [h.errCode]
  apply wp_ite
  · exact fun hle => absurd (hle.trans (Nat.le_succ _)) (not_le.mpr hrank)
  intro _
  apply wp_ite
  · rintro (hclosed | hlocked)
    · rw [h.jfdOpen] at hclosed
      cases hclosed
    · exact absurd hlocked (hne .writerLocked le_rfl)
  intro _
  apply wp_pagerError
  apply wp_pagerPlayback_live h.live hreplayable hfree hfresh h.mayWrite
    (hne .reader (Nat.le_succ _)) h.jfdOpen
  · exact fun u hu => hok u (hu.ended h h.mayWrite)
  · intro rc u hrc hu
    constructor
    · exact fun _ => herr _ _ ⟨(hu.durable h.toDurable).congr rfl rfl rfl, rfl, rfl⟩
    · intro hfalse
      rw [hrc] at hfalse
      cases hfalse

/-! ## Unlocking after a transaction -/

theorem Reading.keepable (h : Reading base w) : Keepable G w := Or.inr ⟨h.cold.now, h.cache⟩

/-- The last page is given back by a reader, or before anything was written. -/
theorem wp_pagerUnlockAndRollback_reading {Q : Unit → World → Prop} (h : Reading base w)
    (hok : ∀ u, Unlocked base u → Q () u) : wp (pagerUnlockAndRollback G) Q E w := by
  apply wp_bind
  apply wp_getPager
  apply wp_bind
  apply wp_whenever
  · intro _
    apply wp_bind
    apply wp_attempt
    apply wp_sqlite3PagerRollback_reading h
    · intro u hu _
      apply wp_pure
      exact wp_pagerUnlock hu.durable (Or.inr hu.keepable) hok
    · intro rc u hu
      apply wp_pure
      exact wp_pagerUnlock hu.toDurable (Or.inl hu.errCode) hok
  · exact fun _ => wp_pagerUnlock h.durable (Or.inr h.keepable) hok

/-- The last page is given back in the middle of a transaction. -/
theorem wp_pagerUnlockAndRollback {Q : Unit → World → Prop} (h : Doomed base segs cur w)
    (hfree : MasterFree G w) (hfresh : NoStaleRecord base w) (hok : ∀ u, Unlocked base u → Q () u) :
    wp (pagerUnlockAndRollback G) Q E w := by
  apply wp_bind
  apply wp_getPager
  apply wp_bind
  apply wp_whenever
  · intro _
    apply wp_bind
    apply wp_attempt
    apply wp_sqlite3PagerRollback h hfree hfresh
    · intro u hu
      apply wp_pure
      exact wp_pagerUnlock hu.durable (Or.inr hu.keepable) hok
    · intro rc u hu
      apply wp_pure
      exact wp_pagerUnlock hu.toDurable (Or.inl hu.errCode) hok
  · exact fun hno => absurd ⟨h.rank.1.le, h.rank.2⟩ hno

/-- In the error state there is only the lock to give back. -/
theorem wp_pagerUnlockAndRollback_broken {Q : Unit → World → Prop} (h : Broken base w)
    (hok : ∀ u, Unlocked base u → Q () u) : wp (pagerUnlockAndRollback G) Q E w := by
  apply wp_bind
  apply wp_getPager
  apply wp_bind
  apply wp_whenever
  · exact fun hstate => absurd h.eState hstate.2
  · exact fun _ => wp_pagerUnlock h.toDurable (Or.inl h.errCode) hok

end SqliteFs
