import SqliteFs.Playback

/-!
Rolling a journal back from end to end. A playback of the whole journal, hot
or of the transaction that is open, is followed by a sync of the database file
and by the deletion of the journal; an error on the way leaves a file that can
be rolled back again.
-/

namespace SqliteFs

open Lib Prog

variable {G : Geometry} {base : DbImage G} {w : World} {E : Code → World → Prop}

/-! ## The name of a master journal -/

/-- The journal ends with the name of a master journal: `len` bytes of a name,
its length, its checksum and the magic. -/
structure NamesMaster (G : Geometry) (f : ParentFile) (len cksum : Int) (zMaster : Bytes) :
    Prop where
  room : 16 ≤ f.size
  stores : Stores f (f.size - 16 - len) len zMaster
  length : (sqlite3Get4byte fun k => f.byte (f.size - 16 + k)) = len
  checksum : (sqlite3Get4byte fun k => f.byte (f.size - 12 + k)) = cksum
  magic : MagicAt f (f.size - 8)
  length_pos : 0 < len
  length_le : len ≤ G.mxPathname
  sum : (cksum - nameSum zMaster len) % 4294967296 = 0
  named : zMaster 0 ≠ 0

/-- A journal that names a master journal is played back only if that exists. -/
def MasterFree (G : Geometry) (w : World) : Prop :=
  w.masterExists = true ∨ ∀ len cksum zMaster, ¬NamesMaster G w.jfd.now len cksum zMaster

theorem wp_readMasterJournal {Q : Bool → World → Prop}
    (hok : ∀ b, (b = true → ∃ len cksum zMaster, NamesMaster G w.jfd.now len cksum zMaster) →
      Q b w)
    (herr : ∀ rc, rc.isIoOrFull = true → E rc w) : wp (readMasterJournal G) Q E w := by
  have hno : Q false w := hok false fun h => absurd h Bool.false_ne_true
  have hfail : ∀ full, E (IoOutcome.code full) w :=
    fun full => herr _ (IoOutcome.code_isIoOrFull full)
  apply wp_bind
  apply wp_sqlite3OsFileSize _ hfail
  simp only [World.file]
  apply wp_ite
  · exact fun _ => wp_pure hno
  intro hroom
  apply wp_bind
  apply wp_read32bits _ _ hfail
  · simp only [World.file]
    omega
  simp only [World.file]
  apply wp_ite
  · exact fun _ => wp_pure hno
  intro hlen
  apply wp_bind
  apply wp_read32bits _ _ hfail
  · simp only [World.file]
    omega
  apply wp_bind
  apply wp_sqlite3OsRead _ hfail
  apply wp_ite
  · exact fun _ => wp_fail (herr _ rfl)
  intro _
  apply wp_ite
  · exact fun _ => wp_pure hno
  intro hmagic
  apply wp_bind
  apply wp_sqlite3OsRead _ hfail
  apply wp_ite
  · exact fun _ => wp_fail (herr _ rfl)
  intro _
  apply wp_pure
  apply hok
  intro hname
  have hnonneg := sqlite3Get4byte_nonneg fun k => w.jfd.now.byte (w.jfd.now.size - 16 + k)
  simp only [World.file, Bool.not_eq_true', Bool.not_eq_false] at hmagic
  obtain ⟨hsum, hnamed⟩ := of_decide_eq_true hname
  exact ⟨_, _, _, by omega, fun _ _ _ => rfl, rfl, rfl, isMagic_iff.mp hmagic, by omega, by omega,
    hsum, hnamed⟩

/-- A journal without the name of a master journal counts. -/
theorem wp_masterExists {zMaster : Bool} {Q : Bool → World → Prop}
    (hz : zMaster = true → ∃ len cksum name, NamesMaster G w.jfd.now len cksum name)
    (hok : ∀ res, (MasterFree G w → res = true) → Q res w)
    (herr : ∀ full, E (IoOutcome.code full) w) : wp (masterExists zMaster) Q E w := by
  apply wp_ite
  · intro hname
    apply wp_osCall
    · apply hok
      rintro (hexists | hno)
      · exact hexists
      · obtain ⟨len, cksum, name, hnames⟩ := hz hname
        exact absurd hnames (hno len cksum name)
    · exact fun full _ => herr full
  · exact fun _ => wp_pure (hok true fun _ => rfl)

/-! ## The end of a transaction -/

/-- The pager when its transaction has ended. -/
def Pager.ended (p : Pager) : Pager :=
  { p with
    pInJournal := none
    nRec := 0
    jfdOpen := false
    changeCountDone := false
    eState := .reader }

/-- The cache is clean and ends with the database. -/
def Pager.flushed (p : Pager) : Pager :=
  { p with pPCache := p.pPCache.sqlite3PcacheCleanAll.sqlite3PcacheTruncate p.dbSize }

/-- The journal is deleted if it is open, and the pager is a reader again. -/
theorem wp_pagerEndTransaction {bCommit : Bool} {Q : Unit → World → Prop}
    (hstate : w.pager.eState ≠ .reader)
    (hend : ∀ J b, (w.pager.jfdOpen = false → J = w.jfd ∧ b = w.journalExists) →
      (w.pager.jfdOpen = true → J = .settled .blank ∧ b = false) →
      wp (whenever (bCommit = true ∧ w.pager.dbSize < w.pager.dbFileSize)
          (pagerTruncate G w.pager.dbSize))
        (fun _ t => Q () { t with
          pager := { t.pager with changeCountDone := false, eState := .reader } })
        (fun rc t => E rc { t with
          pager := { t.pager with changeCountDone := false, eState := .reader } })
        { w with
          jfd := J
          journalExists := b
          pager := { w.pager with
            jfdOpen := false
            pInJournal := none
            nRec := 0
            pPCache :=
              w.pager.pPCache.sqlite3PcacheCleanAll.sqlite3PcacheTruncate w.pager.dbSize } })
    (herr : w.pager.jfdOpen = true → ∀ full,
      E (IoOutcome.code full) { w with pager := w.pager.ended }) :
    wp (pagerEndTransaction G bCommit) Q E w := by
  have hrest : ∀ t : World, wp (whenever (bCommit = true ∧ w.pager.dbSize < w.pager.dbFileSize)
        (pagerTruncate G w.pager.dbSize))
      (fun _ t => Q () { t with
        pager := { t.pager with changeCountDone := false, eState := .reader } })
      (fun rc t => E rc { t with
        pager := { t.pager with changeCountDone := false, eState := .reader } })
      { t with pager := { t.pager with
        pInJournal := none
        nRec := 0
        pPCache := t.pager.pPCache.sqlite3PcacheCleanAll.sqlite3PcacheTruncate t.pager.dbSize } } →
      wp (do
        setPager fun p => { p with pInJournal := none, nRec := 0 }
        let rc ← attempt do
          settle (.ok ())
          setPager fun p => { p with
            pPCache := p.pPCache.sqlite3PcacheCleanAll.sqlite3PcacheTruncate p.dbSize }
          whenever (bCommit = true ∧ w.pager.dbSize < w.pager.dbFileSize)
            (pagerTruncate G w.pager.dbSize)
        setPager fun p => { p with changeCountDone := false, eState := .reader }
        settle rc) Q E t := by
    intro t ht
    apply wp_bind
    apply wp_setPager
    apply wp_bind
    apply wp_attempt
    apply wp_bind
    apply wp_settle
    apply wp_bind
    apply wp_setPager
    apply wp_mono ht
    · intro _ u hu
      apply wp_bind
      apply wp_setPager
      exact wp_settle hu
    · intro rc u hu
      apply wp_bind
      apply wp_setPager
      exact wp_settle hu
  apply wp_bind
  apply wp_getPager
  apply wp_whenever
  · intro _
    apply wp_bind
    apply wp_attempt
    apply wp_whenever
    · intro hopen
      apply wp_bind
      apply wp_modify
      apply wp_osCall
      · apply hrest
        apply hend
        · intro hclosed
          rw [hopen] at hclosed
          cases hclosed
        · exact fun _ => ⟨rfl, rfl⟩
      · intro full kept
        apply wp_bind
        apply wp_setPager
        apply wp_bind
        apply wp_attempt
        apply wp_bind
        apply wp_settle
        apply wp_bind
        apply wp_setPager
        exact wp_settle (herr hopen full)
    · intro hclosed
      rw [Bool.not_eq_true] at hclosed
      have hsame : { w with pager := { w.pager with jfdOpen := false } } = w := by
        rw [← hclosed]
      have hkept := hrest { w with pager := { w.pager with jfdOpen := false } } (by
        apply hend
        · exact fun _ => ⟨rfl, rfl⟩
        · intro hopen
          rw [hclosed] at hopen
          cases hopen)
      rw [hsame] at hkept
      exact hkept
  · exact fun hreader => absurd (not_not.mp hreader) hstate

/-- Without a journal there is only the pager to reset; with one, the journal
is deleted, or all but the pager stays as it is. -/
theorem wp_pagerEndTransaction_false {Q : Unit → World → Prop}
    (hstate : w.pager.eState ≠ .reader)
    (hclosed : w.pager.jfdOpen = false → Q () { w with pager := w.pager.ended.flushed })
    (hopen : w.pager.jfdOpen = true → Q () { w with
      pager := w.pager.ended.flushed, jfd := .settled .blank, journalExists := false })
    (herr : w.pager.jfdOpen = true → ∀ full,
      E (IoOutcome.code full) { w with pager := w.pager.ended }) :
    wp (pagerEndTransaction G false) Q E w := by
  apply wp_pagerEndTransaction hstate _ herr
  intro J b hno hyes
  apply wp_whenever
  · rintro ⟨hfalse, -⟩
    cases hfalse
  intro _
  cases hcase : w.pager.jfdOpen with
  | false =>
      obtain ⟨rfl, rfl⟩ := hno hcase
      exact hclosed hcase
  | true =>
      obtain ⟨rfl, rfl⟩ := hyes hcase
      exact hopen hcase

/-! ## Playing a whole journal back -/

namespace Replayed

variable {w₀ t : World} {touched played : Int → Prop} {off : Int}

theorem interrupted (h : Replayed base w₀ touched played off t) :
    Interrupted base w₀ t := by
  rcases h with ⟨-, hmoved, -⟩ | ⟨-, hrep⟩
  · exact hmoved.interrupted
  · exact hrep.toInterrupted

/-- The fields of the pager that a playback does not change. -/
theorem frame (h : Replayed base w₀ touched played off t) :
    t.pager = { w₀.pager with
      journalOff := t.pager.journalOff
      cksumInit := t.pager.cksumInit
      dbSize := t.pager.dbSize
      dbFileSize := t.pager.dbFileSize
      dbFileVers := t.pager.dbFileVers
      pPCache := t.pager.pPCache } := by
  rcases h with ⟨-, ⟨a, c, rfl⟩, -⟩ | ⟨-, more, -, hrep⟩
  · rfl
  · exact hrep.state

/-- A database file all of whose touched pages were played back is the image. -/
theorem isIn (h : Replayed base w₀ touched played off t) (hall : ∀ p, touched p → played p)
    (hnone : off = 0 → base.IsIn w₀.fd.now) : base.IsIn t.fd.now := by
  rcases h with ⟨hzero, ⟨a, c, rfl⟩, -⟩ | ⟨-, more, hmore, hrep⟩
  · exact hnone hzero
  · exact ⟨hrep.fdNow.mono fun p hp => hp.2 (hmore p (hall p hp.1)), hrep.fdSize⟩

end Replayed

/-- What is left when a journal was played back and deleted. -/
structure RolledBack (base : DbImage G) (w₀ : World) (touched played : Int → Prop) (off : Int)
    (u : World) : Prop where
  replayed : ∃ t, Replayed base w₀ touched played off t ∧ u.fd.now = t.fd.now ∧ ∃ cc,
    u.pager = ({ t.pager with changeCountDone := cc }).ended.flushed
  fd : Undoes base w₀.fd u.fd
  synced : w₀.pager.mayWriteDatabase = true → u.fd = .settled u.fd.now
  jfd : u.jfd = .settled .blank
  journalExists : u.journalExists = false
  masterExists : u.masterExists = w₀.masterExists

/-- The journal is deleted once its pages are back. -/
theorem wp_pagerEndTransaction_replayed {w₀ t : World} {touched played : Int → Prop} {off : Int}
    {Q : Unit → World → Prop} (ht : Replayed base w₀ touched played off t)
    (hstate : w₀.pager.eState ≠ .reader) (hopen : w₀.pager.jfdOpen = true)
    (hw : Interrupted base w₀ w) {cc : Bool}
    (hpager : w.pager = { t.pager with changeCountDone := cc }) (hnow : w.fd.now = t.fd.now)
    (hsync : w₀.pager.mayWriteDatabase = true → w.fd = .settled w.fd.now)
    (hok : ∀ u, RolledBack base w₀ touched played off u → Q () u)
    (herr : ∀ rc u, rc.isIoOrFull = true → Interrupted base w₀ u → E rc u) :
    wp (pagerEndTransaction G false) Q E w := by
  have hwopen : w.pager.jfdOpen = true := by
    rw [hpager, ht.frame]
    exact hopen
  apply wp_pagerEndTransaction_false
  · rw [hpager, ht.frame]
    exact hstate
  · intro hclosed
    rw [hwopen] at hclosed
    cases hclosed
  · intro _
    apply hok
    constructor
    · exact ⟨t, ht, hnow, cc, congrArg (fun p : Pager => p.ended.flushed) hpager⟩
    · exact hw.fd
    · exact hsync
    · rfl
    · rfl
    · exact hw.masterExists
  · exact fun _ full => herr _ _ (IoOutcome.code_isIoOrFull full)
      ⟨hw.jfd, hw.journalExists, hw.masterExists, hw.fd⟩

/-- A playback whose headers are played back ends with the journal deleted.
A journal with nothing to play back need not count. -/
theorem wp_pagerPlayback {touched played : Int → Prop} {off : Int} {isHot : Bool}
    {Q : Unit → World → Prop}
    (hfree : MasterFree G w ∨ Replayed base w touched played off w)
    (hstate : w.pager.eState ≠ .reader) (hopen : w.pager.jfdOpen = true)
    (hplay : ∀ t, PlayedTo base w touched (fun _ => False) 0 t →
      wp (playbackHeaders G isHot w.jfd.now.size (w.jfd.now.size / G.sectorSize + 1).toNat isHot)
        (fun _ u => Replayed base w touched played off u)
        (fun rc u => rc.isIoOrFull = true ∧ Interrupted base w u) t)
    (hok : ∀ u, RolledBack base w touched played off u → Q () u)
    (herr : ∀ rc u, rc.isIoOrFull = true → Interrupted base w u → E rc u) :
    wp (pagerPlayback G isHot) Q E w := by
  have hsame : Interrupted base w w := (Moved.refl w).interrupted
  -- what follows the playback, after an error and after all pages are back
  have hfail : ∀ rc u, rc.isIoOrFull = true → Interrupted base w u →
      wp (do
        setPager fun p => { p with changeCountDone := false }
        settle (.error rc)
        let _ ← readMasterJournal G
        let pPager ← getPager
        whenever pPager.mayWriteDatabase sqlite3PagerSync
        pagerEndTransaction G false) Q E u := by
    intro rc u hrc hu
    apply wp_bind
    apply wp_setPager
    apply wp_bind
    apply wp_settle
    exact herr rc _ hrc ⟨hu.jfd, hu.journalExists, hu.masterExists, hu.fd⟩
  have hdone : ∀ t, Replayed base w touched played off t → wp (do
        setPager fun p => { p with changeCountDone := false }
        settle (.ok ())
        let _ ← readMasterJournal G
        let pPager ← getPager
        whenever pPager.mayWriteDatabase sqlite3PagerSync
        pagerEndTransaction G false) Q E t := by
    intro t ht
    have htint := ht.interrupted
    have hint : ∀ s, Undoes base w.fd s → Interrupted base w { t with
        fd := s, pager := { t.pager with changeCountDone := false } } :=
      fun _ hs => ⟨htint.jfd, htint.journalExists, htint.masterExists, hs⟩
    have hmay : { t.pager with changeCountDone := false }.mayWriteDatabase =
        w.pager.mayWriteDatabase := by
      rw [ht.frame]
      rfl
    apply wp_bind
    apply wp_setPager
    apply wp_bind
    apply wp_settle
    apply wp_bind
    apply wp_readMasterJournal
    · intro _ _
      apply wp_bind
      apply wp_getPager
      apply wp_bind
      apply wp_whenever
      · intro _
        apply wp_sqlite3OsSync
        · apply wp_pagerEndTransaction_replayed ht hstate hopen (hint _ htint.fd.flush) rfl rfl
            (fun _ => rfl) hok herr
        · exact fun full => herr _ _ (IoOutcome.code_isIoOrFull full) (hint _ htint.fd)
      · intro hno
        rw [hmay] at hno
        exact wp_pagerEndTransaction_replayed ht hstate hopen (hint _ htint.fd) rfl rfl
          (fun h => absurd h hno) hok herr
    · exact fun rc hrc => herr rc _ hrc (hint _ htint.fd)
  apply wp_bind
  apply wp_attempt
  apply wp_bind
  apply wp_sqlite3OsFileSize
  · simp only [World.file]
    apply wp_bind
    apply wp_readMasterJournal
    · intro zMaster hname
      apply wp_bind
      apply wp_masterExists hname
      · intro res hres
        apply wp_whenever
        · intro _
          apply wp_bind
          apply wp_setPager
          apply wp_mono (hplay _ ⟨rfl, Or.inl ⟨rfl, ⟨_, _, rfl⟩, fun _ => not_false⟩⟩)
          · exact fun _ => hdone
          · exact fun rc u hu => hfail rc u hu.1 hu.2
        · exact fun hno => hdone w (hfree.resolve_left fun hf => hno (hres hf))
      · exact fun full => hfail _ w (IoOutcome.code_isIoOrFull full) hsame
    · exact fun rc hrc => hfail rc w hrc hsame
  · exact fun full => hfail _ w (IoOutcome.code_isIoOrFull full) hsame

/-! ## Hot journals -/

/-- A journal as it may be found: synced segments and no header behind them. -/
structure HotJournal (base : DbImage G) (f : ParentFile) (segs : List Segment) : Prop where
  segments : Segments base f 0 segs
  inside : journalEnd G 0 segs ≤ f.size
  last : ¬MagicAt f (journalHdrOffset G (journalEnd G 0 segs))
  pages : Journaled base (pagesOf segs)

/-- Every segment takes a sector at least. -/
theorem sectors_le_journalEnd {off : Int} (hoff : 0 ≤ off) (segs : List Segment) :
    off + G.sectorSize * segs.length ≤ journalEnd G off segs := by
  have hS := G.sectorSize_bounds
  induction segs generalizing off with
  | nil => simp only [journalEnd, List.length_nil, Nat.cast_zero, mul_zero, add_zero, le_refl]
  | cons seg segs ih =>
      have hhdr := le_journalHdrOffset G off
      have hge := recordsEnd_ge (G := G) (journalHdrOffset G off) seg.pages
      have hnonneg : 0 ≤ recordsEnd G (journalHdrOffset G off) seg.pages := by omega
      have hnext := ih hnonneg
      have hlen : G.sectorSize * ((seg :: segs).length : Int) =
          G.sectorSize + G.sectorSize * segs.length := by
        push_cast [List.length_cons]
        ring
      simp only [journalEnd, hlen]
      omega

/-- The rounds that a playback of `size` bytes may take. -/
theorem rounds_enough {size : Int} {k : Nat} (h : G.sectorSize * k ≤ size) :
    ∃ n, (size / G.sectorSize + 1).toNat = n + 1 + k := by
  have hS := G.sectorSize_bounds
  have hle : (k : Int) ≤ size / G.sectorSize :=
    (Int.le_ediv_iff_mul_le (by omega)).mpr (by rwa [mul_comm])
  exact ⟨(size / G.sectorSize).toNat - k, by omega⟩

/-- A hot journal is played back as a whole and deleted. -/
theorem wp_pagerPlayback_hot {segs : List Segment} {Q : Unit → World → Prop}
    (hjournal : HotJournal base w.jfd.now segs)
    (h₀ : Replayable base w fun p => p ∈ pagesOf segs) (hfree : segs ≠ [] → MasterFree G w)
    (hstate : w.pager.eState = .opened) (hopen : w.pager.jfdOpen = true)
    (hhdr : w.pager.journalHdr = w.jfd.now.size)
    (hempty : segs ≠ [] → w.pager.pPCache = .empty)
    (hok : ∀ u, RolledBack base w (fun p => p ∈ pagesOf segs) (fun p => p ∈ pagesOf segs)
      (journalEnd G 0 segs) u → Q () u)
    (herr : ∀ rc u, rc.isIoOrFull = true →
      Interrupted base w u → E rc u) :
    wp (pagerPlayback G true) Q E w := by
  have hmay : w.pager.mayWriteDatabase = true := by
    simp only [Pager.mayWriteDatabase, hstate, or_true, decide_true]
  have hsectors := sectors_le_journalEnd (G := G) le_rfl segs
  have hroom : G.sectorSize * segs.length ≤ w.jfd.now.size := by
    have hinside := hjournal.inside
    omega
  obtain ⟨n, hn⟩ := rounds_enough hroom
  have hskip : MasterFree G w ∨ Replayed base w (fun p => p ∈ pagesOf segs)
      (fun p => p ∈ pagesOf segs) (journalEnd G 0 segs) w := by
    rcases eq_or_ne segs [] with rfl | hne
    · exact Or.inr (Or.inl ⟨rfl, Moved.refl w, fun _ => List.not_mem_nil⟩)
    · exact Or.inl (hfree hne)
  apply wp_pagerPlayback hskip _ hopen _ hok herr
  · rw [hstate]
    exact EState.noConfusion
  intro t ht
  rw [hn]
  apply wp_playbackHeaders_segments h₀ ht hjournal.segments rfl hjournal.inside hjournal.pages
  · intro _
    rw [hhdr]
    exact ⟨hmay, hjournal.inside⟩
  · exact fun p hp => hp
  · exact fun hne _ => hempty hne
  · intro u need' hu _
    simp only [false_or] at hu
    apply wp_playbackHeaders_end hu rfl
    · exact fun _ => ⟨rfl, hjournal.last⟩
    · exact fun v hv => hv
    · exact fun rc v hrc hv => ⟨hrc, hv⟩
  · exact fun rc v hrc hv => ⟨hrc, hv⟩

/-! ## The journal of the open transaction -/

/-- A header with its records that is still to be synced. -/
structure OpenHeader (base : DbImage G) (f : ParentFile) (hdr : Int) (cksumInit : UInt32)
    (cur : List Int) : Prop where
  body : HeaderBody base f hdr cksumInit
  nRec : ∃ nRec : Int, Stores f (hdr + 8) 4 (sqlite3Put4byte nRec) ∧ (nRec = 0 ∨ nRec = cur.length)
  records : RecordsAt base f (hdr + G.sectorSize) cksumInit cur
  inside : recordsEnd G hdr cur ≤ f.size

/-- The journal of a transaction: synced segments, then the header of `cur`,
or nothing once the last header was synced for a commit. -/
structure LiveJournal (base : DbImage G) (f : ParentFile) (p : Pager) (segs : List Segment)
    (cur : List Int) : Prop where
  segments : Segments base f 0 segs
  inside : journalEnd G 0 segs ≤ f.size
  pages : Journaled base (pagesOf segs ++ cur)
  head : p.journalHdr = journalHdrOffset G (journalEnd G 0 segs) ∧
      p.journalOff = recordsEnd G p.journalHdr cur ∧
      (∃ cksumInit, OpenHeader base f p.journalHdr cksumInit cur) ∨
    segs ≠ [] ∧ cur = [] ∧ p.journalHdr = journalEnd G 0 segs ∧ p.journalOff = journalEnd G 0 segs

/-- The journal of a transaction has its first header at least. -/
theorem LiveJournal.journalOff_pos {f : ParentFile} {p : Pager} {segs : List Segment}
    {cur : List Int} (h : LiveJournal base f p segs cur) : 0 < p.journalOff := by
  have hS := G.sectorSize_bounds
  have hsectors := sectors_le_journalEnd (G := G) le_rfl segs
  rcases h.head with ⟨hhdr, hoff, -⟩ | ⟨hne, -, -, hoff⟩
  · have hge := recordsEnd_ge (G := G) p.journalHdr cur
    have hle := le_journalHdrOffset G (journalEnd G 0 segs)
    have hend := le_journalEnd (G := G) le_rfl segs
    omega
  · rw [hoff]
    have hlen : 1 ≤ segs.length := List.length_pos_of_ne_nil hne
    have hmul : G.sectorSize * 1 ≤ G.sectorSize * segs.length :=
      mul_le_mul_of_nonneg_left (by exact_mod_cast hlen) (by omega)
    omega

/-- The `k`th record behind the header at `hdr` is behind the journal that is being
written, and a rollback may read it: its header is that of the open part, where
no magic is looked for, or one behind the journal that has a magic. -/
def ReadsStale (G : Geometry) (w : World) (hdr : Int) (k : Nat) : Prop :=
  G.sectorSize ∣ hdr ∧ (hdr = w.pager.journalHdr ∨
      w.pager.journalOff ≤ hdr ∧ MagicAt w.jfd.now hdr) ∧
    w.pager.journalOff ≤ hdr + G.sectorSize + G.journalPgSz * k

/-- No record behind the journal that is being written passes its checksum and
has other bytes than the image, and the file holds no more records than are
counted in 32 bits. -/
structure NoStaleRecord (base : DbImage G) (w : World) : Prop where
  record : ∀ hdr k, ReadsStale G w hdr k → ¬Spoils base w.jfd.now
    (headerCksum w.jfd.now hdr) (hdr + G.sectorSize + G.journalPgSz * k)
  counted : w.jfd.now.size < G.journalPgSz * 4294967296

namespace NoStaleRecord

/-- Behind the records of the open part no record spoils the image. -/
theorem behind_records (h : NoStaleRecord base w) {cur : List Int}
    (hdvd : G.sectorSize ∣ w.pager.journalHdr)
    (hend : w.pager.journalOff ≤ recordsEnd G w.pager.journalHdr cur) (k : Nat) :
    ¬Spoils base w.jfd.now (headerCksum w.jfd.now w.pager.journalHdr)
      (recordsEnd G w.pager.journalHdr cur + G.journalPgSz * k) := by
  have hplace : recordsEnd G w.pager.journalHdr cur + G.journalPgSz * k =
      w.pager.journalHdr + G.sectorSize + G.journalPgSz * (cur.length + k : Nat) := by
    simp only [recordsEnd]
    push_cast
    ring
  have hnonneg : 0 ≤ G.journalPgSz * (k : Int) :=
    mul_nonneg (journalPgSz_pos G).le (Int.natCast_nonneg k)
  rw [hplace]
  exact h.record w.pager.journalHdr (cur.length + k) ⟨hdvd, Or.inl rfl, by omega⟩

/-- What is behind the journal spoils nothing. -/
theorem wp_playbackHeaders (h : NoStaleRecord base w) {touched played : Int → Prop} {u : World}
    (hpos : 0 < w.pager.journalOff) (n : Nat) (hu : PlayedBack base w touched played u)
    (hall : ∀ p, touched p → played p) (hoff : w.pager.journalOff ≤ u.pager.journalOff) :
    wp (playbackHeaders G false w.jfd.now.size n false)
      (fun _ => PlayedBack base w touched played)
      (fun rc t => rc.isIoOrFull = true ∧ Interrupted base w t) u := by
  have hS := G.sectorSize_bounds
  apply wp_playbackHeaders_stale hu hall hoff hpos rfl
  · intro hdr hdvd hle hread k
    have hnonneg : 0 ≤ G.journalPgSz * (k : Int) :=
      mul_nonneg (journalPgSz_pos G).le (Int.natCast_nonneg k)
    exact h.record hdr k ⟨hdvd, hread.imp id fun hmagic => ⟨hle, hmagic⟩, by omega⟩
  · exact fun t ht => ht
  · exact fun rc t hrc ht => ⟨hrc, ht⟩

end NoStaleRecord

/-- The records that are not synced are counted by the size of the journal,
with all that is behind them. -/
theorem counts_open {nRec hdr szJ : Int} {cur : List Int} (hnRec : nRec = 0 ∨ nRec = cur.length)
    (hlen : (cur.length : Int) ≤ PAGER_MAX_PGNO) (hlo : recordsEnd G hdr cur ≤ szJ)
    (hhdr : 0 ≤ hdr) (hhi : szJ < G.journalPgSz * 4294967296) :
    ∃ extra : Nat, Counts G false szJ nRec hdr hdr (cur.length + extra : Nat) := by
  have hsz := journalPgSz_pos G
  have hS := G.sectorSize_bounds
  simp only [PAGER_MAX_PGNO] at hlen
  have hne : ¬nRec = 0xffffffff := by omega
  rcases em (nRec = 0) with hzero | hsome
  · have hle : (cur.length : Int) ≤ (szJ - (hdr + G.sectorSize)) / G.journalPgSz := by
      rw [Int.le_ediv_iff_mul_le hsz, mul_comm]
      simp only [recordsEnd] at hlo
      omega
    have hlt : (szJ - (hdr + G.sectorSize)) / G.journalPgSz < 4294967296 := by
      rw [Int.ediv_lt_iff_lt_mul hsz, mul_comm]
      omega
    refine ⟨((szJ - (hdr + G.sectorSize)) / G.journalPgSz - cur.length).toNat, ?_⟩
    intro p hp hpoff
    simp only [recordCount]
    rw [if_neg hne, if_pos ⟨hzero, trivial, by rw [hp, hpoff]⟩, hpoff]
    generalize (szJ - (hdr + G.sectorSize)) / G.journalPgSz = count at hle hlt
    unfold int32
    omega
  · refine ⟨0, ?_⟩
    intro p hp hpoff
    simp only [recordCount]
    rw [if_neg hne, if_neg fun h => hsome h.1, Nat.add_zero]
    exact hnRec.resolve_left hsome

/-- The journal of the open transaction is played back as a whole and deleted. -/
theorem wp_pagerPlayback_live {segs : List Segment} {cur : List Int} {Q : Unit → World → Prop}
    (hjournal : LiveJournal base w.jfd.now w.pager segs cur)
    (h₀ : Replayable base w fun p => p ∈ pagesOf segs) (hfree : MasterFree G w)
    (hfresh : NoStaleRecord base w) (hmay : w.pager.mayWriteDatabase = true ↔ segs ≠ [])
    (hstate : w.pager.eState ≠ .reader) (hopen : w.pager.jfdOpen = true)
    (hok : ∀ u, RolledBack base w (fun p => p ∈ pagesOf segs)
      (fun p => p ∈ pagesOf segs ∨ p ∈ cur) w.pager.journalOff u → Q () u)
    (herr : ∀ rc u, rc.isIoOrFull = true →
      Interrupted base w u → E rc u) :
    wp (pagerPlayback G false) Q E w := by
  have hS := G.sectorSize_bounds
  have hmax := base.pages_le
  have hsectors := sectors_le_journalEnd (G := G) le_rfl segs
  have hhdr := le_journalHdrOffset G (journalEnd G 0 segs)
  obtain ⟨hsegs, hcur, hdisj⟩ := hjournal.pages.append
  have hcurLen := hcur.length_le
  have hroom : G.sectorSize * segs.length ≤ w.jfd.now.size := by
    have hinside := hjournal.inside
    omega
  obtain ⟨n, hn⟩ := rounds_enough hroom
  apply wp_pagerPlayback (Or.inl hfree) hstate hopen _ hok herr
  intro t ht
  rw [hn]
  apply wp_playbackHeaders_segments h₀ ht hjournal.segments rfl hjournal.inside hsegs
  · intro hne
    refine ⟨hmay.mpr hne, ?_⟩
    rcases hjournal.head with ⟨hopenHdr, -⟩ | ⟨-, -, hclosedHdr, -⟩
    · rw [hopenHdr]
      exact hhdr
    · exact hclosedHdr.ge
  · exact fun p hp => hp
  · exact fun _ hfalse => absurd hfalse Bool.false_ne_true
  · intro u need' hu hneed
    obtain rfl : need' = false :=
      Bool.eq_false_iff.mpr fun htrue => Bool.false_ne_true (hneed htrue)
    simp only [false_or] at hu
    have hpos := hjournal.journalOff_pos
    rcases hjournal.head with ⟨hjhdr, hjoff, cksumInit, hheader⟩ | ⟨-, rfl, hclosedHdr, hjoff⟩
    · -- the records that are not synced were never written to the database file
      obtain ⟨nRec, hstores, hnRec⟩ := hheader.nRec
      have hbounds : 0 ≤ nRec ∧ nRec < 4294967296 := by
        simp only [PAGER_MAX_PGNO] at hmax
        omega
      have hend := le_journalEnd (G := G) le_rfl segs
      obtain ⟨extra, hcount⟩ := counts_open hnRec (hcurLen.trans hmax) hheader.inside (by omega)
        hfresh.counted
      apply wp_playbackHeaders_round h₀ hu hjhdr.symm rfl
      · rintro (hfalse | hne)
        · cases hfalse
        · exact absurd rfl hne
      · exact hstores
      · exact hbounds.1
      · exact hbounds.2
      · exact hheader.body
      · exact hcount
      · exact hheader.records
      · exact hheader.inside
      · exact hcur.has
      · exact Or.inr ⟨Or.inr (by omega), hdisj⟩
      · exact fun hfalse => absurd hfalse Bool.false_ne_true
      · intro v need'' hv hck hneed'
        obtain rfl : need'' = false :=
          Bool.eq_false_iff.mpr fun htrue => Bool.false_ne_true (hneed' htrue)
        have hge := recordsEnd_ge (G := G) w.pager.journalHdr cur
        have hrep : Replaying base w (fun p => p ∈ pagesOf segs)
            (fun p => p ∈ pagesOf segs ∨ p ∈ cur) v :=
          hv.begun.resolve_left (fun hzero => by omega) |>.2
        apply wp_playbackRecords_stale _ hrep.playedBack (fun p => Or.inl) rfl hv.position hck
        · rw [← hheader.body.headerCksum]
          exact hfresh.behind_records (hjhdr ▸ journalHdrOffset_dvd G _) hjoff.le
        · intro goOn x hx hle
          apply wp_whenever
          · intro hgo
            apply wp_mono (hfresh.wp_playbackHeaders hpos n hx (fun p => Or.inl)
              (hjoff.le.trans (hle hgo)))
            · exact fun _ y hy => Or.inr ⟨hpos, hy⟩
            · exact fun _ _ => id
          · exact fun _ => Or.inr ⟨hpos, hx⟩
        · exact fun rc x hrc hx => ⟨hrc, hx⟩
      · exact fun rc v hrc hv => ⟨hrc, hv⟩
    · -- nothing was written behind the last header that was synced
      have hrep := hu.begun.resolve_left fun hzero => by omega
      apply wp_mono (hfresh.wp_playbackHeaders hpos _ hrep.2.playedBack (fun p hp => hp)
        (hjoff.trans hu.position.symm).le)
      · intro _ y hy
        exact Or.inr ⟨hpos, by simpa only [List.not_mem_nil, or_false] using hy⟩
      · exact fun _ _ => id
  · exact fun rc v hrc hv => ⟨hrc, hv⟩

end SqliteFs
