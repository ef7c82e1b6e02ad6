import SqliteFs.PagerStates

/-!
Opening a read transaction and reading pages. `sqlite3PagerSharedLock` leads
from `OPEN` to `READER`, over the recovery of a hot journal if there is one; an
error anywhere leads back to `OPEN` with nothing lost.
-/

namespace SqliteFs

open Lib Prog

variable {G : Geometry} {base : DbImage G} {w : World} {E : Code → World → Prop}

/-! ## Unlocking -/

/-- What the cache must be like for the pager to keep it. -/
def Keepable (G : Geometry) (w : World) : Prop :=
  w.pager.pPCache = .empty ∨ ¬MagicAt w.jfd.now 0 ∧ Coherent G w.fd.now w.pager.pPCache

theorem wp_pagerUnlock {Q : Unit → World → Prop} (h : Durable base w)
    (hcache : w.pager.errCode.isSome = true ∨ Keepable G w)
    (hok : ∀ u, Unlocked base u → Q () u) : wp pagerUnlock Q E w := by
  apply wp_setPager
  apply hok
  refine ⟨h.congr rfl rfl rfl, rfl, rfl, rfl, rfl, rfl, ?_⟩
  simp only
  split_ifs with herr
  · exact Or.inl rfl
  · exact hcache.resolve_left herr

/-! ## Hot journals -/

theorem wp_sqlite3OsOpenJournal {Q : Unit → World → Prop}
    (hok : Q () { w with pager := { w.pager with jfdOpen := true }, journalExists := true })
    (hcant : E .cantopen w) (herr : E .ioerr w) : wp sqlite3OsOpenJournal Q E w := by
  apply wp_step
  intro o
  cases o with
  | done => exact hok
  | fails full kept =>
      cases full with
      | true => exact herr
      | false => exact hcant

theorem wp_pagerPagecount {Q : Int → World → Prop}
    (hok : ∀ m, Q ((w.fd.now.size + G.pageSize - 1) / G.pageSize)
      { w with pager := { w.pager with mxPgno := m } })
    (herr : ∀ full, E (IoOutcome.code full) w) : wp (pagerPagecount G) Q E w := by
  apply wp_bind
  apply wp_sqlite3OsFileSize
  · apply wp_bind
    apply wp_setPager
    exact wp_pure (hok _)
  · exact herr

theorem pagecount_whole {size n : Int} (hsize : size = G.pageSize * n) :
    (size + G.pageSize - 1) / G.pageSize = n := by
  have hP := G.pageSize_bounds
  have hround : G.pageSize * n + G.pageSize - 1 = G.pageSize - 1 + G.pageSize * n := by ring
  rw [hsize, hround, Int.add_mul_ediv_left _ _ (by omega),
    Int.ediv_eq_zero_of_lt (by omega) (by omega), zero_add]

/-- A file that is cut off in a page has that page. -/
theorem le_pagecount {size n : Int} (hlong : G.pageSize * n ≤ size) :
    n ≤ (size + G.pageSize - 1) / G.pageSize := by
  have hP := G.pageSize_bounds
  rw [Int.le_ediv_iff_mul_le (by omega), mul_comm]
  omega

/-- A journal is taken for cold only if it does not start with a magic. -/
theorem wp_hasHotJournal {Q : Bool → World → Prop} (h : Durable base w)
    (hclosed : w.pager.jfdOpen = false)
    (hok : ∀ b m, (b = false → w.jfd.now.byte 0 = 0) →
      Q b { w with pager := { w.pager with mxPgno := m } })
    (herr : ∀ rc m, rc.isIoOrFull = true →
      E rc { w with pager := { w.pager with mxPgno := m } }) :
    wp (hasHotJournal G) Q E w := by
  have hcode : ∀ full m, E (IoOutcome.code full) { w with pager := { w.pager with mxPgno := m } } :=
    fun full m => herr _ m (IoOutcome.code_isIoOrFull full)
  apply wp_bind
  apply wp_osCall
  · simp only
    apply wp_ite
    · intro hno
      rw [Bool.not_eq_true'] at hno
      apply wp_pure
      apply hok false w.pager.mxPgno
      intro _
      rw [h.absent hno]
      rfl
    intro hexist
    rw [Bool.not_eq_true', Bool.not_eq_false] at hexist
    -- opening the journal to look at it, and closing it, changes nothing
    have hback : ∀ m, ({ w with
        pager := { w.pager with mxPgno := m, jfdOpen := false }
        journalExists := true } : World) = { w with pager := { w.pager with mxPgno := m } } := by
      intro m
      obtain ⟨p, fd, jfd, journalExists, masterExists⟩ := w
      cases p
      simp only at hclosed hexist
      subst hclosed hexist
      rfl
    obtain ⟨segs, -, hall, -⟩ := h.now
    have hpos := base.pages_pos
    have hcount := le_pagecount hall.now.long
    apply wp_bind
    apply wp_pagerPagecount
    · intro m
      apply wp_ite
      · intro hzero
        omega
      intro _
      apply wp_bind
      apply wp_attempt
      apply wp_sqlite3OsOpenJournal
      · simp only
        apply wp_bind
        apply wp_attempt
        apply wp_sqlite3OsRead
        · apply wp_bind
          apply wp_modify
          apply wp_bind
          apply wp_settle
          simp only [World.file, Ends]
          apply wp_pure
          rw [hback]
          apply hok
          intro hfalse
          exact not_not.mp (of_decide_eq_false hfalse)
        · intro full
          apply wp_bind
          apply wp_modify
          apply wp_bind
          apply wp_settle
          simp only [Ends]
          rw [hback]
          exact hcode full m
      · exact wp_pure (hok true m fun hfalse => absurd hfalse.symm Bool.false_ne_true)
      · exact wp_fail (herr .ioerr m rfl)
    · exact fun full => hcode full w.pager.mxPgno
  · exact fun full _ => hcode full w.pager.mxPgno

/-- An error that the pager remembers puts it into the error state. -/
theorem wp_pagerError {α : Type} {m : Io α} {Q : α → World → Prop} (h : wp m Q (fun rc t =>
      (rc.isIoOrFull = true → E rc { t with
        pager := { t.pager with errCode := some rc, eState := .error } }) ∧
      (rc.isIoOrFull = false → E rc t)) w) : wp (pagerError m) Q E w := by
  apply wp_bind
  apply wp_attempt
  apply wp_mono h
  · exact fun _ _ hQ => wp_pure hQ
  · rintro rc t ⟨hio, hother⟩
    apply wp_bind
    apply wp_whenever
    · exact fun hrc => wp_setPager (wp_fail (hio hrc))
    · exact fun hrc => wp_fail (hother (Bool.eq_false_iff.mpr hrc))

/-- The journal is settled and its pages may be in the file or not. -/
theorem durable_of_hot {segs : List Segment} {f : ParentFile} (hhot : HotJournal base f segs)
    (hall : w.fd.All (Undoable base fun p => p ∈ pagesOf segs))
    (hexact : segs = [] → AtRest base w.fd) (hjfd : w.jfd = .settled f)
    (hexists : w.journalExists = true) : Durable base w := by
  constructor
  · rw [hjfd]
    intro g hg
    obtain rfl := hg.settled
    exact ⟨segs, hhot, hall, hexact⟩
  · intro hno
    rw [hexists] at hno
    cases hno
  · rw [hjfd]
    intro hzero
    apply Versions.all_settled
    intro hmagic
    rw [Versions.now_settled, magicAt_byte hmagic] at hzero
    exact absurd hzero (by decide)

/-- A journal with synced segments is longer than nothing. -/
theorem journalEnd_eq_zero {segs : List Segment} (h : journalEnd G 0 segs = 0) : segs = [] := by
  have hS := G.sectorSize_bounds
  have hsectors := sectors_le_journalEnd (G := G) le_rfl segs
  rw [h, zero_add] at hsectors
  apply List.eq_nil_of_length_eq_zero
  by_contra hne
  have hpos : 0 < G.sectorSize * (segs.length : Int) := mul_pos (by omega) (by omega)
  omega

/-- After the rollback of a hot journal the file is the image again. -/
theorem RolledBack.atRest {w₀ u : World} {segs : List Segment} {played : Int → Prop} {off : Int}
    (h : RolledBack base w₀ (fun p => p ∈ pagesOf segs) played off u)
    (hall : ∀ p ∈ pagesOf segs, played p) (hexact : segs = [] → AtRest base w₀.fd)
    (hoff : off = 0 → segs = [])
    (hsynced : segs = [] ∨ w₀.pager.mayWriteDatabase = true) : AtRest base u.fd := by
  obtain ⟨t, ht, hnow, -⟩ := h.replayed
  rcases hsynced with hnil | hmay
  · exact h.fd.keeps (hexact hnil)
  · rw [h.synced hmay, hnow]
    exact .settled (ht.isIn hall fun hzero => (hexact (hoff hzero)).isIn)

/-- The state in which the recovery of a hot journal leaves the pager. -/
structure Recovered (base : DbImage G) (u : World) : Prop extends Unlocked base u where
  zero : u.jfd.now.byte 0 = 0
  coherent : Coherent G u.fd.now u.pager.pPCache

theorem Unlocked.coherent {segs : List Segment} (h : Unlocked base w)
    (hhot : HotJournal base w.jfd.now segs) :
    (segs ≠ [] → w.pager.pPCache = .empty) ∧
      (segs = [] → Coherent G w.fd.now w.pager.pPCache) := by
  rcases h.cache with hempty | ⟨hcold, hcoherent⟩
  · refine ⟨fun _ => hempty, fun _ => ?_⟩
    rw [hempty]
    exact coherent_empty _
  · exact ⟨fun hne => absurd (hhot.eq_nil hcold) hne, fun _ => hcoherent⟩

theorem Unlocked.recovered (h : Unlocked base w) (hzero : w.jfd.now.byte 0 = 0) :
    Recovered base w := by
  refine ⟨h, hzero, ?_⟩
  rcases h.cache with hempty | ⟨-, hcoherent⟩
  · rw [hempty]
    exact coherent_empty _
  · exact hcoherent

/-- The pager with a hot journal that it has opened and synced. -/
structure AtHotJournal (base : DbImage G) (segs : List Segment) (w : World) : Prop where
  hot : HotJournal base w.jfd.now segs
  all : w.fd.All (Undoable base fun p => p ∈ pagesOf segs)
  exact : segs = [] → AtRest base w.fd
  jfd : w.jfd = .settled w.jfd.now
  journalExists : w.journalExists = true
  eState : w.pager.eState = .opened
  errCode : w.pager.errCode = none
  jfdOpen : w.pager.jfdOpen = true
  empty : segs ≠ [] → w.pager.pPCache = .empty
  coherent : segs = [] → Coherent G w.fd.now w.pager.pPCache

theorem AtHotJournal.durable {segs : List Segment} {u : World} (h : AtHotJournal base segs w)
    (hu : Interrupted base w u) : Durable base u :=
  durable_of_hot h.hot (hu.fd.all _ h.all) (fun hnil => hu.fd.keeps (h.exact hnil))
    (hu.jfd.trans h.jfd) (hu.journalExists.trans h.journalExists)

theorem AtHotJournal.mayWrite {segs : List Segment} (h : AtHotJournal base segs w) :
    w.pager.mayWriteDatabase = true := by
  simp only [Pager.mayWriteDatabase, h.eState, or_true, decide_true]

/-- After the playback the pager is where it was, without the journal. -/
theorem AtHotJournal.recovered {segs : List Segment} {u : World} (h : AtHotJournal base segs w)
    (hu : RolledBack base w (fun p => p ∈ pagesOf segs) (fun p => p ∈ pagesOf segs)
      (journalEnd G 0 segs) u) :
    Recovered base { u with pager := { u.pager with eState := .opened } } := by
  have hrest := hu.atRest (fun p hp => hp) h.exact journalEnd_eq_zero (Or.inr h.mayWrite)
  obtain ⟨t, ht, hnow, cc, hpager⟩ := hu.replayed
  have hcache : Coherent G u.fd.now u.pager.pPCache := by
    rw [hpager]
    apply Coherent.truncate
    rcases ht with ⟨hzero, ⟨a, c, rfl⟩, -⟩ | ⟨hpos, more, -, hrep⟩
    · rw [hnow]
      exact h.coherent (journalEnd_eq_zero hzero)
    · have hne : segs ≠ [] := by
        rintro rfl
        exact absurd hpos (lt_irrefl 0)
      rw [Pager.ended, hrep.empty (h.empty hne)]
      exact coherent_empty _
  have hzero : u.jfd.now.byte 0 = 0 := by
    rw [hu.jfd]
    rfl
  have herr : u.pager.errCode = none := by
    simp only [hpager, Pager.flushed, Pager.ended]
    rw [ht.frame]
    exact h.errCode
  refine ⟨⟨.deleted hrest hu.jfd, rfl, herr, ?_, ?_, ?_, Or.inr ⟨?_, hcache⟩⟩, hzero, hcache⟩
  · rw [hpager]
    rfl
  · rw [hpager]
    rfl
  · rw [hpager]
    rfl
  · intro hmagic
    have hbyte := magicAt_byte hmagic
    simp only [hzero] at hbyte
    exact absurd hbyte (by decide)

theorem wp_recoverHotJournal {Q : Unit → World → Prop} (h : Unlocked base w)
    (hfree : MagicAt w.jfd.now 0 → MasterFree G w)
    (hok : ∀ u, Recovered base u → Q () u)
    (herr : ∀ rc u, Durable base u → rc.isIoOrFull = true ∨ Keepable G u → E rc u) :
    wp (recoverHotJournal G) Q E w := by
  obtain ⟨segs, hhot, hall, hexact⟩ := h.now
  obtain ⟨hempty, hcoherent⟩ := h.coherent hhot
  have hfail : ∀ full u, Durable base u → E (IoOutcome.code full) u :=
    fun full u hu => herr _ u hu (Or.inl (IoOutcome.code_isIoOrFull full))
  -- what is done with the journal once it is open and synced
  have hplay : ∀ u, AtHotJournal base segs u → (segs ≠ [] → MasterFree G u) →
      u.pager.journalHdr = u.jfd.now.size → wp (do
        let rc ← attempt (pagerPlayback G true)
        setPager fun p => { p with eState := .opened }
        settle rc) Q E u := by
    intro u hu hufree hhdr
    apply wp_bind
    apply wp_attempt
    apply wp_pagerPlayback_hot hu.hot ⟨hu.all, _⟩ hufree hu.eState hu.jfdOpen hhdr hu.empty
    · intro v hv
      apply wp_bind
      apply wp_setPager
      exact wp_settle (hok _ (hu.recovered hv))
    · intro rc v hrc hv
      apply wp_bind
      apply wp_setPager
      exact wp_settle (herr rc _ ((hu.durable hv).congr rfl rfl rfl) (Or.inl hrc))
    · intro hno
      rw [hu.mayWrite] at hno
      cases hno
  apply wp_bind
  apply wp_osCall
  · simp only
    apply wp_whenever
    · intro hexist
      apply wp_bind
      apply wp_sqlite3OsOpenJournal
      · apply wp_bind
        apply wp_bind
        apply wp_sqlite3OsSync
        · have hset : AtHotJournal base segs { w with
              pager := { w.pager with jfdOpen := true }
              journalExists := true
              jfd := w.jfd.flush } :=
            ⟨hhot, hall, hexact, rfl, rfl, h.eState, h.errCode, rfl, hempty, hcoherent⟩
          apply wp_bind
          apply wp_sqlite3OsFileSize
          · apply wp_setPager
            apply hplay
            · exact ⟨hhot, hall, hexact, rfl, rfl, h.eState, h.errCode, rfl, hempty, hcoherent⟩
            · exact fun hne => hfree (hhot.magic hne)
            · rfl
          · exact fun full => hfail full _ (hset.durable ⟨rfl, rfl, rfl, Undoes.refl _⟩)
        · exact fun full => hfail full _ (h.toDurable.congr rfl rfl hexist.symm)
      · exact herr _ _ h.toDurable (Or.inr h.cache)
      · exact herr _ _ h.toDurable (Or.inl rfl)
    · intro hno
      rw [Bool.not_eq_true] at hno
      apply hok _ (h.recovered _)
      rw [h.absent hno]
      rfl
  · exact fun full _ => hfail full _ h.toDurable

/-! ## The shared lock -/

/-- The cache is kept or emptied. -/
theorem wp_checkFileVers {Q : Unit → World → Prop} (hsame : Q () w)
    (hreset : Q () { w with pager := { w.pager with pPCache := .empty } })
    (herr : ∀ full, E (IoOutcome.code full) w) : wp checkFileVers Q E w := by
  apply wp_bind
  apply wp_getPager
  apply wp_whenever
  · intro _
    apply wp_bind
    apply wp_sqlite3OsRead
    · apply wp_whenever
      · exact fun _ => wp_setPager hreset
      · exact fun _ => hsame
    · exact herr
  · exact fun _ => hsame

/-- What does not matter in `OPEN`. -/
theorem Unlocked.congr {u : World} (h : Unlocked base w) (hfd : u.fd = w.fd) (hjfd : u.jfd = w.jfd)
    (hexists : u.journalExists = w.journalExists)
    (hpager : ∃ m n b v, u.pager = { w.pager with
      mxPgno := m, dbSize := n, hasHeldSharedLock := b, dbFileVers := v }) : Unlocked base u := by
  obtain ⟨m, n, b, v, hpager⟩ := hpager
  refine ⟨h.toDurable.congr hfd hjfd hexists, ?_, ?_, ?_, ?_, ?_, ?_⟩
  · rw [hpager]
    exact h.eState
  · rw [hpager]
    exact h.errCode
  · rw [hpager]
    exact h.jfdOpen
  · rw [hpager]
    exact h.pInJournal
  · rw [hpager]
    exact h.changeCountDone
  · rw [hpager, hfd, hjfd]
    exact h.cache

/-- With nothing to recover the pager reads the size of the image. -/
theorem Recovered.wp_readSize {Q : Unit → World → Prop} (h : Recovered base w)
    (hok : ∀ u, Reading base u → u.pager.eState = .reader → Q () u)
    (hunlock : ∀ rc u, Durable base u → u.pager.errCode.isSome = true ∨ Keepable G u →
      wp (do
        pagerUnlock
        fail rc) Q E u) :
    wp (do
        checkFileVers
        let nPage ← pagerPagecount G
        setPager fun p => { p with dbSize := nPage })
      (fun _ v => wp (setPager fun p => { p with eState := .reader, hasHeldSharedLock := true })
        Q E v)
      (fun rc v => wp (do
        pagerUnlock
        fail rc) Q E v) w := by
  have hcold : ¬MagicAt w.jfd.now 0 := by
    intro hmagic
    have hbyte := magicAt_byte hmagic
    rw [h.zero] at hbyte
    exact absurd hbyte (by decide)
  have hatRest := h.toDurable.atRest hcold
  -- whichever cache is kept
  have hcount : ∀ c, Coherent G w.fd.now c → wp (do
        let nPage ← pagerPagecount G
        setPager fun p => { p with dbSize := nPage })
      (fun _ v => wp (setPager fun p => { p with eState := .reader, hasHeldSharedLock := true })
        Q E v)
      (fun rc v => wp (do
        pagerUnlock
        fail rc) Q E v) { w with pager := { w.pager with pPCache := c } } := by
    intro c hc
    apply wp_bind
    apply wp_pagerPagecount
    · intro m
      rw [pagecount_whole hatRest.isIn.size]
      apply wp_setPager
      apply wp_setPager
      apply hok
      · exact ⟨h.errCode, rfl, h.pInJournal, h.changeCountDone, hatRest,
          h.toDurable.cold h.zero, h.absent, hc, Or.inl ⟨rfl, h.jfdOpen⟩⟩
      · rfl
    · intro full
      exact hunlock _ _ (h.toDurable.congr rfl rfl rfl) (Or.inr (Or.inr ⟨hcold, hc⟩))
  apply wp_bind
  apply wp_checkFileVers
  · exact hcount _ h.coherent
  · exact hcount _ (coherent_empty _)
  · exact fun full => hunlock _ _ h.toDurable (Or.inr h.cache)

/-- A read transaction is opened on the image, whatever an earlier process, or
an earlier failure, has left behind. -/
theorem wp_sqlite3PagerSharedLock {Q : Unit → World → Prop} (h : Unlocked base w)
    (hfree : MagicAt w.jfd.now 0 → MasterFree G w)
    (hok : ∀ u, Reading base u → u.pager.eState = .reader → Q () u)
    (herr : ∀ rc u, Unlocked base u → E rc u) : wp (sqlite3PagerSharedLock G) Q E w := by
  have hunlock : ∀ rc u, Durable base u → u.pager.errCode.isSome = true ∨ Keepable G u →
      wp (do
        pagerUnlock
        fail rc) Q E u := by
    intro rc u hu hcache
    apply wp_bind
    apply wp_pagerUnlock hu hcache
    exact fun v hv => wp_fail (herr rc v hv)
  apply wp_bind
  apply wp_getPager
  apply wp_bind
  apply wp_attempt
  apply wp_whenever
  · intro _
    apply wp_bind
    apply wp_hasHotJournal h.toDurable h.jfdOpen
    · intro hot m hcold
      have hm : Unlocked base { w with pager := { w.pager with mxPgno := m } } :=
        h.congr rfl rfl rfl ⟨m, _, _, _, rfl⟩
      apply wp_bind
      apply wp_whenever
      · intro _
        apply wp_pagerError
        apply wp_recoverHotJournal hm hfree
        · exact fun u hu => hu.wp_readSize hok hunlock
        · intro rc u hu hcache
          constructor
          · exact fun _ => hunlock rc _ (hu.congr rfl rfl rfl) (Or.inl rfl)
          · intro hrc
            apply hunlock rc u hu (Or.inr (hcache.resolve_left _))
            rw [hrc]
            exact Bool.false_ne_true
      · intro hno
        rw [Bool.not_eq_true] at hno
        exact (hm.recovered (hcold hno)).wp_readSize hok hunlock
    · intro rc m _
      exact hunlock rc _ (h.toDurable.congr rfl rfl rfl) (Or.inr h.cache)
  · exact fun hne => absurd h.eState hne

/-! ## Reading pages -/

theorem wp_readDbPage {pgno : Int} {Q : Bytes → World → Prop}
    (hok : ∀ v, Q (filePage G w.fd.now pgno)
      { w with pager := { w.pager with dbFileVers := v } })
    (herr : ∀ full v, E (IoOutcome.code full)
      { w with pager := { w.pager with dbFileVers := v } }) :
    wp (readDbPage G pgno) Q E w := by
  apply wp_bind
  apply wp_attempt
  apply wp_sqlite3OsRead
  · apply wp_bind
    apply wp_whenever
    · exact fun _ => wp_setPager (wp_pure (hok _))
    · exact fun _ => wp_pure (hok w.pager.dbFileVers)
  · intro full
    apply wp_bind
    apply wp_whenever
    · exact fun _ => wp_setPager (wp_fail (herr full _))
    · exact fun _ => wp_fail (herr full w.pager.dbFileVers)

/-- Behind the end of the database file there are zeros. -/
theorem filePage_past {f : ParentFile} {n pgno : Int} (hsize : f.size ≤ G.pageSize * n)
    (hpast : n < pgno) : SamePage G (fun _ => 0) (filePage G f pgno) := by
  have hP := G.pageSize_bounds
  intro k hlo hhi
  have hofst : G.pageSize * n ≤ pageOfst G pgno := by
    rw [pageOfst, mul_comm]
    exact mul_le_mul_of_nonneg_right (by omega) (by omega)
  exact (f.zero_past _ (by omega)).symm

/-- A page comes from the cache or, clean, from the file. -/
theorem wp_sqlite3PagerGet {pgno : Int} {Q : PgHdr → World → Prop}
    (hsize : w.pager.dbSize < pgno → w.fd.now.size ≤ G.pageSize * w.pager.dbSize)
    (hcached : ∀ pPg, w.pager.pPCache.page pgno = some pPg → Q pPg w)
    (hfetch : ∀ pData v, w.pager.pPCache.page pgno = none → ValidPages G pgno →
      SamePage G pData (filePage G w.fd.now pgno) → Q ⟨pData, false, false⟩ { w with
        pager := { w.pager with
          pPCache := w.pager.pPCache.set pgno ⟨pData, false, false⟩, dbFileVers := v } })
    (herr : ∀ rc v, E rc { w with pager := { w.pager with dbFileVers := v } }) :
    wp (sqlite3PagerGet G pgno) Q E w := by
  have hsame : ∀ rc, E rc w := fun rc => herr rc w.pager.dbFileVers
  apply wp_bind
  apply wp_getPager
  cases hcode : w.pager.errCode with
  | some rc => exact wp_fail (hsame rc)
  | none =>
      apply wp_ite
      · exact fun _ => wp_fail (hsame _)
      intro _
      cases hpage : w.pager.pPCache.page pgno with
      | some pPg => exact wp_pure (hcached pPg hpage)
      | none =>
          apply wp_ite
          · exact fun _ => wp_fail (hsame _)
          intro hvalid
          apply wp_ite
          · exact fun _ => wp_fail (hsame _)
          intro _
          have hpages : ValidPages G pgno := ⟨by omega, fun heq => hvalid (Or.inr heq)⟩
          apply wp_bind
          apply wp_bind
          apply wp_getPager
          apply wp_ite
          · intro hpast
            apply wp_pure
            apply wp_bind
            apply wp_setPager
            have hzeros := filePage_past (hsize hpast) hpast
            exact wp_pure (hfetch _ w.pager.dbFileVers hpage hpages hzeros)
          · intro _
            apply wp_readDbPage
            · intro v
              apply wp_bind
              apply wp_setPager
              exact wp_pure (hfetch _ v hpage hpages (SamePage.refl _))
            · exact fun full v => herr _ v

end SqliteFs
