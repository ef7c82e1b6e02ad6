import SqliteFs.PagerSafety
import SqliteFs.Lib.SteadyProgram

/-!
What the pager gets done when the device carries everything out. Most of its
functions are steady then: whatever state they start in they return `SQLITE_OK`
and no error is set. Playing a journal back is not so simple, as it reads
records that may be cut off; it keeps the journal, and every read that is not
allowed to fail lies inside of it.
-/

namespace SqliteFs

open Lib Prog

variable {G : Geometry} {w : World} {E : Code → World → Prop}

/-- A program that succeeds on a device that carries everything out. -/
abbrev Sure {α κ : Type} (obs : World → κ) (m : Io α) : Prop := Steady IoOutcome.done obs m

def World.errCode (w : World) : Option Code := w.pager.errCode

/-- The error of the pager and the journal. -/
def World.journal (w : World) : Option Code × Store := (w.pager.errCode, w.jfd)

section Calls

variable {κ : Type} {obs : World → κ}

theorem sure_getPager : Sure obs getPager := Steady.state.map

theorem sure_setPager {g : Pager → Pager} (h : ∀ w, obs { w with pager := g w.pager } = obs w) :
    Sure obs (setPager g) :=
  Steady.modify h

theorem sure_osCall {α : Type} {done : World → α × World}
    {failed : Kept → World → World} (h : ∀ w, obs (done w).2 = obs w) :
    Sure obs (osCall done failed) :=
  Steady.step fun w => ⟨(done w).1, (done w).2, rfl, h w⟩

theorem sure_sqlite3OsRead {id : FileId} {iAmt iOfst : Int} :
    Sure obs (sqlite3OsRead id iAmt iOfst) :=
  sure_osCall fun _ => rfl

theorem sure_sqlite3OsFileSize {id : FileId} : Sure obs (sqlite3OsFileSize id) :=
  sure_osCall fun _ => rfl

theorem sure_sqlite3OsWrite {id : FileId} {zBuf : Bytes} {iAmt iOfst : Int}
    (h : ∀ w s, obs (w.setFile id s) = obs w) : Sure obs (sqlite3OsWrite G id zBuf iAmt iOfst) :=
  Steady.step fun w => ⟨(), _, rfl, h w _⟩

theorem sure_sqlite3OsTruncate {id : FileId} {size : Int}
    (h : ∀ w s, obs (w.setFile id s) = obs w) : Sure obs (sqlite3OsTruncate id size) :=
  sure_osCall fun w => h w _

theorem sure_sqlite3OsSync {id : FileId} (h : ∀ w s, obs (w.setFile id s) = obs w) :
    Sure obs (sqlite3OsSync id) :=
  sure_osCall fun w => h w _

end Calls

theorem World.errCode_setFile (w : World) (s : Store) (id : FileId) :
    (w.setFile id s).errCode = w.errCode := by
  cases id with
  | fd => rfl
  | jfd => rfl

/-- What keeps the journal keeps the error. -/
theorem Sure.errCode {α : Type} {m : Io α} (h : Sure World.journal m) : Sure World.errCode m :=
  h.weaken fun _ _ => congrArg Prod.fst

theorem sure_setPage {pgno : Int} {g : PgHdr → PgHdr} : Sure World.journal (setPage pgno g) :=
  sure_setPager fun _ => rfl

/-- Nothing is left of an error that does not occur. -/
theorem sure_pagerError {α κ : Type} {obs : World → κ} {m : Io α} (h : Sure obs m) :
    Sure obs (pagerError m) :=
  h.attempt fun a => Steady.pure a

/-! ## The database file -/

theorem sure_resizeDatabase {currentSize newSize : Int} :
    Sure World.journal (resizeDatabase G currentSize newSize) := by
  apply Steady.ite
  · exact sure_sqlite3OsTruncate fun _ _ => rfl
  · apply Steady.whenever
    exact sure_sqlite3OsWrite fun _ _ => rfl

theorem sure_pagerTruncate {nPage : Int} : Sure World.journal (pagerTruncate G nPage) := by
  apply Steady.bind sure_getPager
  intro pPager
  apply Steady.whenever
  apply Steady.bind sure_sqlite3OsFileSize
  intro currentSize
  apply Steady.whenever
  apply Steady.bind sure_resizeDatabase
  intro _
  exact sure_setPager fun _ => rfl

/-! ## Playing the journal back -/

/-- Nothing happened to the journal and no error was set. -/
abbrev SameJournal (w u : World) : Prop := u.journal = w.journal

theorem SameJournal.jfd {u : World} (h : SameJournal w u) : u.jfd = w.jfd := congrArg Prod.snd h

theorem upon_osCall {α : Type} {done : World → α × World} {failed : Kept → World → World}
    {Q : α → World → Prop} (h : Q (done w).1 (done w).2) :
    upon .done (osCall done failed) Q E w :=
  ⟨.ok (done w).1, (done w).2, rfl, h⟩

theorem upon_sqlite3OsRead {id : FileId} {iAmt iOfst : Int} {Q : Bool × Bytes → World → Prop}
    (h : Q (decide (iOfst + iAmt ≤ (w.file id).now.size),
      fun k => (w.file id).now.byte (iOfst + k)) w) :
    upon .done (sqlite3OsRead id iAmt iOfst) Q E w :=
  upon_osCall h

theorem upon_getPager {Q : Pager → World → Prop} (h : Q w.pager w) :
    upon .done getPager Q E w :=
  upon_map (upon_state h)

theorem upon_setPager {g : Pager → Pager} {Q : Unit → World → Prop}
    (h : Q () { w with pager := g w.pager }) : upon .done (setPager g) Q E w :=
  upon_modify h

theorem upon_sqlite3OsFileSize {id : FileId} {Q : Int → World → Prop}
    (h : Q (w.file id).now.size w) : upon .done (sqlite3OsFileSize id) Q E w :=
  upon_osCall h

theorem upon_read32bits {id : FileId} {offset : Int} {Q : Int → World → Prop}
    (hin : offset + 4 ≤ (w.file id).now.size) (h : ∀ v, Q v w) :
    upon .done (read32bits id offset) Q E w := by
  apply upon_bind
  apply upon_sqlite3OsRead
  simp only [hin, decide_true, if_true]
  exact upon_pure (h _)

/-- Wherever it is read from, a number is there or the read is short. -/
theorem upon_read32bits_any {id : FileId} {offset : Int} {Q : Int → World → Prop}
    (hok : ∀ v, Q v w) (hshort : E .ioerrShortRead w) :
    upon .done (read32bits id offset) Q E w := by
  apply upon_bind
  apply upon_sqlite3OsRead
  apply upon_ite
  · exact fun _ => upon_pure (hok _)
  · exact fun _ => upon_fail hshort

theorem upon_readMagic {isHot : Bool} {iHdrOff : Int} {Q : Bool → World → Prop}
    (hin : iHdrOff + 8 ≤ w.jfd.now.size) (h : ∀ b, Q b w) :
    upon .done (readMagic isHot iHdrOff) Q E w := by
  apply upon_bind
  apply upon_getPager
  apply upon_ite
  · intro _
    apply upon_bind
    apply upon_sqlite3OsRead
    simp only [World.file, hin, decide_true, if_true]
    exact upon_pure (h _)
  · exact fun _ => upon_pure (h true)

theorem upon_readHeaderSizes {iHdrOff : Int} {Q : Bool → World → Prop}
    (hin : iHdrOff + 28 ≤ w.jfd.now.size) (h : ∀ b, Q b w) :
    upon .done (readHeaderSizes G iHdrOff) Q E w := by
  apply upon_ite
  · intro _
    apply upon_bind
    apply upon_read32bits (by simp only [World.file]; omega)
    intro iSectorSize
    apply upon_bind
    apply upon_read32bits (by simp only [World.file]; omega)
    exact fun iPageSize => upon_pure (h _)
  · exact fun _ => upon_pure (h true)

/-- A header lies inside the journal, or the playback is done. -/
theorem upon_readJournalHdr {isHot : Bool} {szJ : Int} (hszJ : szJ = w.jfd.now.size) :
    upon .done (readJournalHdr G isHot szJ) (fun _ u => SameJournal w u) (fun _ _ => False) w := by
  have hS := G.sectorSize_bounds
  apply upon_bind
  apply upon_setPager
  apply upon_bind
  apply upon_getPager
  apply upon_ite
  · exact fun _ => upon_pure rfl
  intro hle
  have hsize : journalHdrOffset G w.pager.journalOff + 28 ≤ w.jfd.now.size := by
    simp only at hle
    omega
  apply upon_bind
  apply upon_readMagic (by simp only; omega)
  intro found
  apply upon_ite
  · exact fun _ => upon_pure rfl
  intro _
  apply upon_bind
  apply upon_read32bits (by simp only [World.file]; omega)
  intro nRec
  apply upon_bind
  apply upon_read32bits (by simp only [World.file]; omega)
  intro cksumInit
  apply upon_bind
  apply upon_setPager
  apply upon_bind
  apply upon_read32bits (by simp only [World.file]; omega)
  intro dbSize
  apply upon_bind
  apply upon_readHeaderSizes (by simp only; omega)
  intro valid
  apply upon_ite
  · exact fun _ => upon_pure rfl
  intro _
  apply upon_bind
  apply upon_setPager
  exact upon_pure rfl

/-- A master journal's name is looked for inside the journal. -/
theorem sure_readMasterJournal : Sure World.journal (readMasterJournal G) := by
  intro w
  apply upon_bind
  apply upon_sqlite3OsFileSize
  apply upon_ite
  · exact fun _ => upon_pure rfl
  intro _
  apply upon_bind
  apply upon_read32bits (by simp only [World.file]; omega)
  intro len
  apply upon_ite
  · exact fun _ => upon_pure rfl
  intro _
  apply upon_bind
  apply upon_read32bits (by simp only [World.file]; omega)
  intro cksum
  apply upon_bind
  apply upon_sqlite3OsRead
  simp only [World.file, sub_add_cancel, le_refl, decide_true, Bool.not_true, Bool.false_eq_true,
    if_false]
  apply upon_ite
  · exact fun _ => upon_pure rfl
  intro _
  apply upon_bind
  apply upon_sqlite3OsRead
  have hin : w.jfd.now.size - 16 - len + len ≤ w.jfd.now.size := by omega
  simp only [World.file, hin, decide_true, Bool.not_true, Bool.false_eq_true, if_false]
  exact upon_pure rfl

theorem sure_masterExists {zMaster : Bool} : Sure World.journal (masterExists zMaster) := by
  apply Steady.ite
  · exact sure_osCall fun _ => rfl
  · exact Steady.pure true

theorem sure_restorePage {pgno : Int} {aData : Bytes} :
    Sure World.journal (restorePage G pgno aData) := by
  apply Steady.attempt
  · exact sure_sqlite3OsWrite fun _ _ => rfl
  intro _
  apply Steady.bind
  · exact sure_setPager fun _ => rfl
  · exact fun _ => Steady.pure ()

theorem sure_reloadPage {pgno : Int} {aData : Bytes} :
    Sure World.journal (reloadPage pgno aData) := by
  apply Steady.bind sure_getPager
  intro pPager
  apply Steady.whenever
  apply Steady.bind sure_setPage
  intro _
  apply Steady.whenever
  exact sure_setPager fun _ => rfl

/-- A record that is cut off is the only one that cannot be read. -/
theorem upon_pagerPlaybackOnePage :
    upon .done (pagerPlaybackOnePage G) (fun _ u => SameJournal w u)
      (fun rc u => rc = .ioerrShortRead ∧ SameJournal w u) w := by
  apply upon_bind
  apply upon_getPager
  apply upon_bind
  apply upon_read32bits_any _ ⟨rfl, rfl⟩
  intro pgno
  apply upon_bind
  apply upon_sqlite3OsRead
  apply upon_ite
  · exact fun _ => upon_fail ⟨rfl, rfl⟩
  intro _
  apply upon_bind
  apply upon_setPager
  apply upon_ite
  · exact fun _ => upon_pure rfl
  intro _
  apply upon_ite
  · exact fun _ => upon_pure rfl
  intro _
  apply upon_bind
  apply upon_read32bits_any _ ⟨rfl, rfl⟩
  intro cksum
  apply upon_ite
  · exact fun _ => upon_pure rfl
  intro _
  refine Steady.upon (?_ : Sure World.journal _) fun _ u hu => hu
  apply Steady.attempt sure_restorePage.whenever
  intro _
  apply Steady.bind sure_reloadPage
  intro _
  apply Steady.bind (Steady.pure ())
  exact fun _ => Steady.pure true

theorem sure_playbackRecords {szJ : Int} (n : Nat) :
    Sure World.journal (playbackRecords G szJ n) := by
  induction n with
  | zero => exact Steady.pure true
  | succ n ih =>
      intro w
      apply upon_bind
      apply upon_attempt
      apply upon_mono upon_pagerPlaybackOnePage
      · intro more u hu
        cases more with
        | true => exact ih.upon fun _ t ht => ht.trans hu
        | false =>
            apply upon_bind
            apply upon_setPager
            exact upon_pure hu
      · rintro _ u ⟨rfl, hu⟩
        exact upon_pure hu

theorem sure_pagerReset : Sure World.journal pagerReset := sure_setPager fun _ => rfl

/-- A round of the loop over the headers moves on behind one header. -/
theorem upon_playbackHeaders {isHot : Bool} {szJ : Int} (n : Nat) (needPagerReset : Bool)
    {w : World} (hszJ : szJ = w.jfd.now.size) :
    upon .done (playbackHeaders G isHot szJ n needPagerReset) (fun _ u => SameJournal w u)
      (fun _ _ => False) w := by
  induction n generalizing w needPagerReset with
  | zero => exact upon_pure rfl
  | succ n ih =>
      apply upon_bind
      apply upon_ok (upon_readJournalHdr hszJ)
      intro header u hu
      cases header with
      | none => exact upon_pure hu
      | some header =>
          apply upon_bind
          apply upon_getPager
          apply upon_bind
          have htruncate : Sure World.journal (whenever (u.pager.journalOff = G.sectorSize) do
              pagerTruncate G header.2
              setPager fun p => { p with dbSize := header.2 }) :=
            (sure_pagerTruncate.bind fun _ => sure_setPager fun _ => rfl).whenever
          apply htruncate.upon
          intro _ t ht
          apply upon_bind
          apply sure_pagerReset.whenever.upon
          intro _ v hv
          apply upon_bind
          apply (sure_playbackRecords _).upon
          intro goOn x hx
          have hsame : SameJournal w x := hx.trans (hv.trans (ht.trans hu))
          apply upon_whenever
          · intro _
            apply upon_ok (ih _ (hszJ.trans (by rw [hsame.jfd])))
            exact fun _ y hy => hy.trans hsame
          · exact fun _ => hsame

/-! ## Ending transactions -/

theorem sure_pagerEndTransaction {bCommit : Bool} :
    Sure World.errCode (pagerEndTransaction G bCommit) := by
  apply Steady.bind sure_getPager
  intro pPager
  apply Steady.whenever
  apply Steady.attempt
  · apply Steady.whenever
    apply Steady.bind
    · exact Steady.modify fun _ => rfl
    · exact fun _ => sure_osCall fun _ => rfl
  intro _
  apply Steady.bind
  · exact sure_setPager fun _ => rfl
  intro _
  apply Steady.attempt
  · apply Steady.bind (Steady.pure ())
    intro _
    apply Steady.bind
    · exact sure_setPager fun _ => rfl
    · exact fun _ => sure_pagerTruncate.errCode.whenever
  intro _
  apply Steady.bind
  · exact sure_setPager fun _ => rfl
  · exact fun _ => Steady.pure ()

theorem sure_sqlite3PagerSync : Sure World.journal sqlite3PagerSync :=
  sure_sqlite3OsSync fun _ _ => rfl

/-- Every journal can be played back, whatever is in it. -/
theorem sure_pagerPlayback {isHot : Bool} : Sure World.errCode (pagerPlayback G isHot) := by
  have hplay : Sure World.journal (do
      let szJ ← sqlite3OsFileSize .jfd
      let zMaster ← readMasterJournal G
      let res ← masterExists zMaster
      whenever res do
        setPager fun p => { p with journalOff := 0 }
        playbackHeaders G isHot szJ (szJ / G.sectorSize + 1).toNat isHot) := by
    intro w
    apply upon_bind
    apply upon_sqlite3OsFileSize
    apply upon_bind
    apply sure_readMasterJournal.upon
    intro zMaster u hu
    apply upon_bind
    apply sure_masterExists.upon
    intro res t ht
    have hsame : SameJournal w t := ht.trans hu
    apply upon_whenever
    · intro _
      apply upon_bind
      apply upon_setPager
      apply upon_ok (upon_playbackHeaders _ _ ?_)
      · exact fun _ v hv => hv.trans hsame
      · rw [hsame.jfd]
        rfl
    · exact fun _ => hsame
  apply Steady.attempt hplay.errCode
  intro _
  apply Steady.bind
  · exact sure_setPager fun _ => rfl
  intro _
  apply Steady.bind (Steady.pure ())
  intro _
  apply Steady.bind sure_readMasterJournal.errCode
  intro _
  apply Steady.bind sure_getPager
  intro pPager
  apply Steady.bind sure_sqlite3PagerSync.errCode.whenever
  exact fun _ => sure_pagerEndTransaction

/-! ## Read transactions -/

theorem sure_pagerPagecount : Sure World.errCode (pagerPagecount G) := by
  apply Steady.bind sure_sqlite3OsFileSize
  intro n
  apply Steady.bind
  · exact sure_setPager fun _ => rfl
  · exact fun _ => Steady.pure _

theorem sure_sqlite3OsOpenJournal : Sure World.errCode sqlite3OsOpenJournal :=
  Steady.step fun _ => ⟨(), _, rfl, rfl⟩

theorem sure_sqlite3OsCloseJournal : Sure World.errCode sqlite3OsCloseJournal :=
  Steady.modify fun _ => rfl

theorem sure_sqlite3OsDeleteJournal : Sure World.errCode sqlite3OsDeleteJournal :=
  sure_osCall fun _ => rfl

theorem sure_hasHotJournal : Sure World.errCode (hasHotJournal G) := by
  apply Steady.bind
  · exact sure_osCall fun _ => rfl
  intro exist
  apply Steady.ite (Steady.pure false)
  apply Steady.bind sure_pagerPagecount
  intro nPage
  apply Steady.ite
  · apply Steady.attempt sure_sqlite3OsDeleteJournal
    exact fun _ => Steady.pure false
  apply Steady.attempt sure_sqlite3OsOpenJournal
  intro _
  apply Steady.attempt sure_sqlite3OsRead
  intro first
  apply Steady.bind sure_sqlite3OsCloseJournal
  intro _
  apply Steady.bind (Steady.pure first)
  exact fun _ => Steady.pure _

theorem sure_recoverHotJournal : Sure World.errCode (recoverHotJournal G) := by
  apply Steady.bind
  · exact sure_osCall fun _ => rfl
  intro exist
  apply Steady.whenever
  apply Steady.bind sure_sqlite3OsOpenJournal
  intro _
  apply Steady.bind
  · apply Steady.bind
    · exact sure_sqlite3OsSync fun _ _ => rfl
    intro _
    apply Steady.bind sure_sqlite3OsFileSize
    exact fun szJ => sure_setPager fun _ => rfl
  intro _
  apply Steady.attempt sure_pagerPlayback
  intro _
  apply Steady.bind
  · exact sure_setPager fun _ => rfl
  · exact fun _ => Steady.pure ()

theorem sure_checkFileVers : Sure World.errCode checkFileVers := by
  apply Steady.bind sure_getPager
  intro pPager
  apply Steady.whenever
  apply Steady.bind sure_sqlite3OsRead
  intro read
  exact sure_pagerReset.errCode.whenever

/-- A read transaction can be opened, with or without a journal to play back. -/
theorem sure_sqlite3PagerSharedLock : Sure World.errCode (sqlite3PagerSharedLock G) := by
  apply Steady.bind sure_getPager
  intro pPager
  apply Steady.attempt
  · apply Steady.whenever
    apply Steady.bind sure_hasHotJournal
    intro hot
    apply Steady.bind (sure_pagerError sure_recoverHotJournal).whenever
    intro _
    apply Steady.bind sure_checkFileVers
    intro _
    apply Steady.bind sure_pagerPagecount
    exact fun nPage => sure_setPager fun _ => rfl
  · exact fun _ => sure_setPager fun _ => rfl

/-! ## Transactions -/

/-- As long as there is no error the program succeeds, and sets none. -/
def Works {α : Type} (m : Io α) : Prop :=
  ∀ w : World, w.pager.errCode = none →
    upon .done m (fun _ u => u.pager.errCode = none) (fun _ _ => False) w

namespace Works

variable {α β : Type} {m : Io α} {f : α → Io β}

theorem of_sure (h : Sure World.errCode m) : Works m :=
  fun _ hnone => h.upon fun _ _ hu => Eq.trans hu hnone

theorem bind (hm : Works m) (hf : ∀ a, Works (f a)) : Works (m >>= f) :=
  fun w hnone => upon_bind (upon_ok (hm w hnone) fun a u hu => hf a u hu)

theorem whenever {c : Prop} [Decidable c] {m : Io Unit} (hm : Works m) : Works (whenever c m) :=
  fun w hnone => upon_whenever (fun _ => hm w hnone) fun _ => hnone

theorem pagerError (hm : Works m) : Works (pagerError m) := by
  intro w hnone
  apply upon_bind
  apply upon_attempt
  apply upon_ok (hm w hnone)
  exact fun a u hu => upon_pure hu

/-- The guard against an earlier error lets the call pass. -/
theorem guarded {g : Pager → Io α} (hg : ∀ p, Works (g p)) :
    Works (do
      let pPager ← getPager
      match pPager.errCode with
      | some rc => fail rc
      | none => g pPager) := by
  intro w hnone
  apply upon_bind
  apply upon_getPager
  simp only [hnone]
  exact hg w.pager w hnone

end Works

/-- A page that the pager can address and that is not behind the largest page. -/
def World.CanFetch (G : Geometry) (w : World) (pgno : Int) : Prop :=
  1 ≤ pgno ∧ pgno ≤ PAGER_MAX_PGNO ∧ pgno ≠ G.pagerMjPgno ∧
    (pgno ≤ w.pager.dbSize ∨ pgno ≤ w.pager.mxPgno)

theorem sure_readDbPage {pgno : Int} : Sure World.errCode (readDbPage G pgno) := by
  apply Steady.attempt sure_sqlite3OsRead
  intro read
  apply Steady.bind
  · apply Steady.whenever
    exact sure_setPager fun _ => rfl
  · exact fun _ => Steady.pure _

theorem sure_fetchPage {pgno : Int} : Sure World.errCode (fetchPage G pgno) := by
  apply Steady.bind sure_getPager
  intro pPager
  apply Steady.ite
  · exact Steady.pure _
  · exact sure_readDbPage

theorem upon_sqlite3PagerGet {pgno : Int} (hnone : w.pager.errCode = none)
    (hfetch : w.CanFetch G pgno) :
    upon .done (sqlite3PagerGet G pgno) (fun _ u => u.pager.errCode = none)
      (fun _ _ => False) w := by
  obtain ⟨hpos, hmax, hmj, hlimit⟩ := hfetch
  have hzero : pgno ≠ 0 := by omega
  have hrange : ¬(PAGER_MAX_PGNO < pgno ∨ pgno = G.pagerMjPgno) :=
    fun h => h.elim hmax.not_gt hmj
  have hroom : ¬(w.pager.dbSize < pgno ∧ w.pager.mxPgno < pgno) := by omega
  apply upon_bind
  apply upon_getPager
  simp only [hnone, if_neg hzero]
  cases w.pager.pPCache.page pgno with
  | some pPg => exact upon_pure hnone
  | none =>
      simp only [if_neg hrange, if_neg hroom]
      apply Works.of_sure _ w hnone
      apply Steady.bind sure_fetchPage
      intro pData
      apply Steady.bind
      · exact sure_setPager fun _ => rfl
      · exact fun _ => Steady.pure _

theorem sure_write {zBuf : Bytes} {id : FileId} {iAmt iOfst : Int} :
    Sure World.errCode (sqlite3OsWrite G id zBuf iAmt iOfst) :=
  sure_sqlite3OsWrite fun w s => w.errCode_setFile s id

theorem sure_writeJournalHdr {random : UInt32} :
    Sure World.errCode (writeJournalHdr G random) := by
  apply Steady.bind sure_getPager
  intro pPager
  apply Steady.bind
  · exact sure_setPager fun _ => rfl
  intro _
  apply Steady.attempt sure_write
  intro _
  apply Steady.bind
  · exact sure_setPager fun _ => rfl
  · exact fun _ => Steady.pure ()

theorem sure_pagerOpenJournal {random : UInt32} :
    Sure World.errCode (pagerOpenJournal G random) := by
  apply Steady.bind sure_getPager
  intro pPager
  apply Steady.attempt
  · apply Steady.bind
    · exact sure_setPager fun _ => rfl
    intro _
    apply Steady.bind sure_sqlite3OsOpenJournal.whenever
    intro _
    apply Steady.bind
    · exact sure_setPager fun _ => rfl
    · exact fun _ => sure_writeJournalHdr
  · exact fun _ => sure_setPager fun _ => rfl

theorem sure_pagerAddPageToRollbackJournal {pgno : Int} {pData : Bytes} :
    Sure World.errCode (pagerAddPageToRollbackJournal G pgno pData) := by
  apply Steady.bind sure_getPager
  intro pPager
  apply Steady.bind sure_setPage.errCode
  intro _
  apply Steady.bind sure_write
  intro _
  apply Steady.bind sure_write
  intro _
  apply Steady.bind sure_write
  exact fun _ => sure_setPager fun _ => rfl

theorem sure_journalPage {pgno : Int} : Sure World.errCode (journalPage G pgno) := by
  apply Steady.bind sure_getPager
  intro pPager
  cases pPager.pInJournal with
  | none => exact Steady.pure ()
  | some pages =>
      apply Steady.ite (Steady.pure ())
      apply Steady.ite
      · cases pPager.pPCache.page pgno with
        | none => exact Steady.pure ()
        | some pPg => exact sure_pagerAddPageToRollbackJournal
      · exact Steady.ite sure_setPage.errCode (Steady.pure ())

theorem sure_pagerWrite {random : UInt32} {pgno : Int} :
    Sure World.errCode (pagerWrite G random pgno) := by
  apply Steady.bind sure_getPager
  intro pPager
  apply Steady.bind sure_pagerOpenJournal.whenever
  intro _
  apply Steady.bind
  · exact sure_setPager fun _ => rfl
  intro _
  apply Steady.bind sure_journalPage
  intro _
  apply Steady.bind sure_getPager
  intro pPager
  apply Steady.bind sure_setPage.errCode
  intro _
  apply Steady.whenever
  exact sure_setPager fun _ => rfl

theorem works_sqlite3PagerWrite {random : UInt32} {pgno : Int} :
    Works (sqlite3PagerWrite G random pgno) := by
  intro w hnone
  apply upon_bind
  apply upon_getPager
  apply upon_ite
  · exact fun _ => upon_pure hnone
  · intro _
    simp only [hnone]
    exact Works.of_sure sure_pagerWrite w hnone

theorem works_sqlite3PagerBegin : Works sqlite3PagerBegin :=
  Works.guarded fun _ => Works.of_sure (sure_setPager fun _ => rfl).whenever

theorem sure_eraseNextHdr : Sure World.errCode (eraseNextHdr G) := by
  apply Steady.bind sure_getPager
  intro pPager
  apply Steady.bind sure_sqlite3OsRead
  intro read
  exact sure_write.whenever

theorem works_syncJournal {random : UInt32} {newHdr : Bool} :
    Works (syncJournal G random newHdr) := by
  have hsync : ∀ id, Sure World.errCode (sqlite3OsSync id) :=
    fun id => sure_sqlite3OsSync fun w s => w.errCode_setFile s id
  apply Works.guarded
  intro pPager
  apply Works.of_sure
  apply Steady.bind
  · apply Steady.whenever
    apply Steady.bind sure_eraseNextHdr
    intro _
    apply Steady.bind (hsync _)
    intro _
    apply Steady.bind sure_write
    intro _
    apply Steady.bind (hsync _)
    intro _
    apply Steady.bind
    · exact sure_setPager fun _ => rfl
    intro _
    apply Steady.whenever
    apply Steady.bind
    · exact sure_setPager fun _ => rfl
    · exact fun _ => sure_writeJournalHdr
  · exact fun _ => sure_setPager fun _ => rfl

theorem sure_stampPageOne : Sure World.errCode stampPageOne := by
  apply Steady.bind sure_getPager
  exact fun _ => sure_setPage.errCode

theorem sure_writePageOut {pgno : Int} : Sure World.errCode (writePageOut G pgno) := by
  apply Steady.bind sure_getPager
  intro pPager
  cases pPager.pPCache.page pgno with
  | none => exact Steady.pure ()
  | some pPg =>
      apply Steady.attempt sure_write
      intro _
      apply Steady.bind
      · apply Steady.whenever
        exact sure_setPager fun _ => rfl
      intro _
      apply Steady.bind
      · apply Steady.whenever
        exact sure_setPager fun _ => rfl
      · exact fun _ => Steady.pure ()

theorem sure_pagerWritePagelist (pList : List Int) :
    Sure World.errCode (pagerWritePagelist G pList) := by
  induction pList with
  | nil => exact Steady.pure ()
  | cons pgno pList ih =>
      apply Steady.bind sure_getPager
      intro pPager
      apply Steady.bind
      · apply Steady.whenever
        apply Steady.bind sure_stampPageOne.whenever
        exact fun _ => sure_writePageOut
      · exact fun _ => ih

theorem works_pagerStress {random : UInt32} {pgno : Int} :
    Works (pagerStress G random pgno) := by
  apply Works.bind (Works.of_sure sure_getPager)
  intro pPager
  apply Works.whenever
  apply Works.pagerError
  apply Works.bind works_syncJournal.whenever
  intro _
  apply Works.of_sure
  apply Steady.bind (sure_pagerWritePagelist _)
  exact fun _ => sure_setPager fun _ => rfl

theorem works_pagerIncrChangecounter {random : UInt32} :
    Works (pagerIncrChangecounter G random) := by
  intro w hnone
  have hP := G.pageSize_bounds
  have hmj : (1 : Int) ≤ 0x40000000 / G.pageSize := by
    rw [Int.le_ediv_iff_mul_le (by omega)]
    omega
  apply upon_bind
  apply upon_getPager
  apply upon_whenever
  · rintro ⟨-, hsize⟩
    apply upon_bind
    have hfetch : w.CanFetch G 1 :=
      ⟨le_rfl, by decide, by simp only [Geometry.pagerMjPgno]; omega, Or.inl (by omega)⟩
    apply upon_ok (upon_sqlite3PagerGet hnone hfetch)
    intro pPg u hu
    apply Works.bind works_sqlite3PagerWrite _ u hu
    intro _
    apply Works.of_sure
    apply Steady.bind sure_stampPageOne
    exact fun _ => sure_setPager fun _ => rfl
  · exact fun _ => hnone

theorem works_sqlite3PagerCommitPhaseOne {random : UInt32} :
    Works (sqlite3PagerCommitPhaseOne G random) := by
  apply Works.guarded
  intro pPager
  apply Works.whenever
  apply Works.bind works_pagerIncrChangecounter
  intro _
  apply Works.bind works_syncJournal
  intro _
  apply Works.of_sure
  apply Steady.bind sure_getPager
  intro pPager
  apply Steady.bind (sure_pagerWritePagelist _)
  intro _
  apply Steady.bind
  · exact sure_setPager fun _ => rfl
  intro _
  apply Steady.bind sure_getPager
  intro pPager
  apply Steady.bind sure_pagerTruncate.errCode.whenever
  intro _
  apply Steady.bind sure_sqlite3PagerSync.errCode
  exact fun _ => sure_setPager fun _ => rfl

theorem works_sqlite3PagerCommitPhaseTwo : Works (sqlite3PagerCommitPhaseTwo G) :=
  Works.guarded fun _ => Works.of_sure (sure_pagerError sure_pagerEndTransaction)

/-- A rollback succeeds as well, though it may leave an error behind when there
was no journal to roll back. -/
theorem upon_sqlite3PagerRollback (hnone : w.pager.errCode = none) :
    upon .done (sqlite3PagerRollback G) (fun _ _ => True) E w := by
  apply upon_bind
  apply upon_getPager
  simp only [hnone]
  apply upon_ite
  · exact fun _ => upon_pure trivial
  intro _
  apply upon_ite
  · intro _
    apply upon_bind
    apply upon_attempt
    apply sure_pagerEndTransaction.upon
    intro _ u _
    apply upon_ite
    · intro _
      apply upon_bind
      apply upon_setPager
      exact upon_pure trivial
    · intro _
      have hsettle : Sure World.errCode (pagerError (settle (.ok ()) : Io Unit)) :=
        sure_pagerError (Steady.pure ())
      exact hsettle.upon fun _ _ _ => trivial
  · exact fun _ => (sure_pagerError sure_pagerPlayback).upon fun _ _ _ => trivial

theorem upon_pagerUnlockAndRollback (h : w.pager.errCode = none ∨ w.pager.eState = .error) :
    upon .done (pagerUnlockAndRollback G) (fun _ _ => True) E w := by
  apply upon_bind
  apply upon_getPager
  apply upon_bind
  apply upon_whenever
  · rintro ⟨-, hstate⟩
    have hnone := h.resolve_right hstate
    apply upon_bind
    apply upon_attempt
    apply upon_mono (upon_sqlite3PagerRollback (E := fun _ _ => True) hnone)
    · exact fun _ _ _ => upon_pure (upon_setPager trivial)
    · exact fun _ _ _ => upon_pure (upon_setPager trivial)
  · exact fun _ => upon_setPager trivial

/-! ## Runs -/

section Runs

variable {base : DbImage G} {s : Session} {tx : Transactions Database} {c : PagerCall}

/-- Outside of the error state no error is set. -/
theorem Phase.Holds.errCode {phase : Phase} {db : Database} (h : phase.Holds base w db)
    (hbroken : phase ≠ .broken) : w.pager.errCode = none := by
  rcases em (phase = .closed) with rfl | hclosed
  · exact Unlocked.errCode h
  · rcases h.undo hclosed with hread | ⟨segs, cur, hdoomed⟩ | hbroke
    · exact hread.errCode
    · exact hdoomed.errCode
    · exact absurd hbroke.1 hbroken

/-- What a call can do in a state it is allowed in, it does. -/
theorem PagerCall.succeeds_of_represents (h : s.Represents G tx) (hallowed : c.Allowed G s)
    (hfetch : ∀ pgno, c = .get pgno → s.world.CanFetch G pgno) :
    upon .done (c.run G) (fun _ _ => True) (fun _ _ => False) s.world := by
  obtain ⟨base, -, hholds⟩ := h
  -- the calls that go through as long as there is no error
  have hworks : ∀ m : Io Unit, Works m → s.phase ≠ .broken →
      upon .done m (fun _ _ => True) (fun _ _ => False) s.world :=
    fun m hm hbroken => upon_ok (hm s.world (hholds.errCode hbroken)) fun _ _ _ => trivial
  have hphase : ∀ p, p ≠ .broken → s.phase = p → s.phase ≠ .broken := by
    rintro p hp rfl
    exact hp
  cases c with
  | sharedLock => exact sure_sqlite3PagerSharedLock.upon fun _ _ _ => trivial
  | get pgno =>
      have hbroken : s.phase ≠ .broken := by
        rcases hallowed.2 with h | h | h
        all_goals exact hphase _ (by decide) h
      apply upon_bind
      apply upon_ok (upon_sqlite3PagerGet (hholds.errCode hbroken) (hfetch pgno rfl))
      exact fun _ _ _ => upon_pure trivial
  | begin => exact hworks _ works_sqlite3PagerBegin (hphase _ (by decide) hallowed)
  | write random pgno =>
      apply hworks _ works_sqlite3PagerWrite
      rcases hallowed.1 with h | h
      all_goals exact hphase _ (by decide) h
  | put pgno d => exact upon_modify trivial
  | stress random pgno =>
      exact hworks _ works_pagerStress (hphase _ (by decide) hallowed.1)
  | evict pgno => exact upon_modify trivial
  | truncateImage nPage =>
      have hset : Works (sqlite3PagerTruncateImage nPage) :=
        Works.of_sure (sure_setPager fun _ => rfl)
      exact hworks _ hset (hphase _ (by decide) hallowed.1)
  | commitPhaseOne random =>
      apply hworks _ works_sqlite3PagerCommitPhaseOne
      rcases hallowed with h | h | h
      all_goals exact hphase _ (by decide) h
  | commitPhaseTwo =>
      apply hworks _ works_sqlite3PagerCommitPhaseTwo
      rcases hallowed with h | h
      all_goals exact hphase _ (by decide) h
  | rollback => exact upon_sqlite3PagerRollback (hholds.errCode hallowed.2)
  | unlock =>
      apply upon_pagerUnlockAndRollback
      rcases hholds.undo hallowed with hread | ⟨segs, cur, hdoomed⟩ | hbroke
      · exact Or.inl hread.errCode
      · exact Or.inl hdoomed.errCode
      · exact Or.inr hbroke.2.eState

theorem Session.next_of_upon (h : upon .done (c.run G) (fun _ _ => True) (fun _ _ => False)
    s.world) : ∃ t, s.next G c.succeeds = some t ∧ t.phase = c.next true s.phase := by
  obtain ⟨a, u, hexec, -⟩ := h.exec_ok
  refine ⟨⟨u, c.next true s.phase⟩, ?_, rfl⟩
  simp only [PagerCall.succeeds, Session.next, hexec]
  rfl

/-- Power is lost when the page of the transaction is in the database file and
the journal is not deleted yet. -/
abbrev Event.loseChange : List Event :=
  Event.changePage ++ [.powerLoss (Session.afterSmall Event.changePage).world.lost]

abbrev Session.lostSmall : Session :=
  ⟨(Session.afterSmall Event.changePage).world.lost, .closed⟩

theorem Session.lostSmall_undisturbed : PagerCall.sharedLock.Undisturbed .small .lostSmall := by
  refine fun _ => Or.inr fun len cksum zMaster hnames => ?_
  exact absurd (magicAt_byte hnames.magic) (by decide +kernel)

end Runs

end SqliteFs
