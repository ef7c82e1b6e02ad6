import SqliteFs.PagerState

/-!
The functions of the pager: the rollback journal with its headers and page
records, playing it back, spilling dirty pages, the two phases of a commit,
rollback, and the recovery of a hot journal when a read transaction is opened.
Savepoints, the write-ahead log, temporary and in-memory databases, other
journal modes and page codecs are not here.
-/

namespace SqliteFs

open Lib Prog

variable (G : Geometry)

/-! ## The journal format -/

def aJournalMagic (k : Int) : UInt8 :=
  match k with
  | 0 => 0xd9
  | 1 => 0xd5
  | 2 => 0x05
  | 3 => 0xf9
  | 4 => 0x20
  | 5 => 0xa1
  | 6 => 0x63
  | 7 => 0xd7
  | _ => 0

/-- The `memcmp` of eight bytes with `aJournalMagic`. -/
def isMagic (aMagic : Bytes) : Bool :=
  (List.range 8).all fun k => aMagic k = aJournalMagic k

/-- The loop of `pager_cksum` from index `i` on; `n` bounds its rounds. -/
def cksumLoop (aData : Bytes) : Nat → Int → UInt32 → UInt32
  | 0, _, cksum => cksum
  | n + 1, i, cksum =>
    if 0 < i then cksumLoop aData n (i - 200) (cksum + (aData i).toUInt32) else cksum

def pagerCksum (cksumInit : UInt32) (aData : Bytes) : UInt32 :=
  cksumLoop aData G.pageSize.toNat (G.pageSize - 200) cksumInit

/-- The sector boundary at or after `c`. -/
def journalHdrOffset (c : Int) : Int :=
  if c ≠ 0 then ((c - 1) / G.sectorSize + 1) * G.sectorSize else 0

/-- The header that `writeJournalHdr` puts down: the magic and the number of
records stay zero until the journal is synced, the tail of the sector is zero. -/
def zHeader (cksumInit : UInt32) (dbOrigSize : Int) : Bytes := fun k =>
  if k < 12 then 0
  else if k < 16 then sqlite3Put4byte cksumInit.toNat (k - 12)
  else if k < 20 then sqlite3Put4byte dbOrigSize (k - 16)
  else if k < 24 then sqlite3Put4byte G.sectorSize (k - 20)
  else if k < 28 then sqlite3Put4byte G.pageSize (k - 24)
  else 0

/-- One pass of the loop writes the header, as a sector is no larger than a page. -/
def writeJournalHdr (random : UInt32) : Io Unit := do
  let pPager ← getPager
  let journalOff := journalHdrOffset G pPager.journalOff
  setPager fun p => { p with
    journalHdr := journalOff, journalOff := journalOff, cksumInit := random }
  let rc ← attempt (sqlite3OsWrite G .jfd (zHeader G random pPager.dbOrigSize) G.sectorSize
    journalOff)
  setPager fun p => { p with journalOff := journalOff + G.sectorSize }
  settle rc

/-- The sizes a first header may carry: powers of two in their ranges. -/
def headerSizesValid (iPageSize iSectorSize : Int) : Bool :=
  !(iPageSize < 512 || iSectorSize < 32 || 65536 < iPageSize || 0x10000 < iSectorSize ||
    (iPageSize - 1).toNat &&& iPageSize.toNat ≠ 0 ||
    (iSectorSize - 1).toNat &&& iSectorSize.toNat ≠ 0)

/-- Whether the magic is at `iHdrOff`. The last header of a journal that is
being written has none yet, so a rollback does not look there. -/
def readMagic (isHot : Bool) (iHdrOff : Int) : Io Bool := do
  let pPager ← getPager
  if isHot ∨ iHdrOff ≠ pPager.journalHdr then do
    let (complete, aMagic) ← sqlite3OsRead .jfd 8 iHdrOff
    if complete then pure (isMagic aMagic) else fail .ioerrShortRead
  else pure true

/-- The first header has the sizes that the journal was written with. -/
def readHeaderSizes (iHdrOff : Int) : Io Bool :=
  if iHdrOff = 0 then do
    let iSectorSize ← read32bits .jfd (iHdrOff + 20)
    let iPageSize ← read32bits .jfd (iHdrOff + 24)
    pure (headerSizesValid (if iPageSize = 0 then G.pageSize else iPageSize) iSectorSize)
  else pure true

/-- `none` is `SQLITE_DONE`; else the number of records and the original size
of the database. -/
def readJournalHdr (isHot : Bool) (journalSize : Int) : Io (Option (Int × Int)) := do
  setPager fun p => { p with journalOff := journalHdrOffset G p.journalOff }
  let pPager ← getPager
  let iHdrOff := pPager.journalOff
  if journalSize < iHdrOff + G.sectorSize then pure none
  else do
    let found ← readMagic isHot iHdrOff
    if !found then pure none
    else do
      let nRec ← read32bits .jfd (iHdrOff + 8)
      let cksumInit ← read32bits .jfd (iHdrOff + 12)
      setPager fun p => { p with cksumInit := UInt32.ofNat cksumInit.toNat }
      let dbSize ← read32bits .jfd (iHdrOff + 16)
      let valid ← readHeaderSizes G iHdrOff
      if !valid then pure none
      else do
        setPager fun p => { p with journalOff := iHdrOff + G.sectorSize }
        pure (some (nRec, dbSize))

/-- The sum of the bytes of a name; `char` is signed in it. -/
def nameSum (zMaster : Bytes) (len : Int) : Int :=
  ((List.range len.toNat).map fun u : Nat => (zMaster u).toInt8.toInt).sum

/-- Whether the journal ends with the name of a master journal. -/
def readMasterJournal : Io Bool := do
  let szJ ← sqlite3OsFileSize .jfd
  if szJ < 16 then pure false
  else do
    let len ← read32bits .jfd (szJ - 16)
    if G.mxPathname + 1 ≤ len ∨ szJ - 16 < len ∨ len = 0 then pure false
    else do
      let cksum ← read32bits .jfd (szJ - 12)
      let (complete, aMagic) ← sqlite3OsRead .jfd 8 (szJ - 8)
      if !complete then fail .ioerrShortRead
      else if !isMagic aMagic then pure false
      else do
        let (complete, zMaster) ← sqlite3OsRead .jfd len (szJ - 16 - len)
        if !complete then fail .ioerrShortRead
        else pure ((cksum - nameSum zMaster len) % 4294967296 = 0 ∧ zMaster 0 ≠ 0)

/-! ## The database file -/

/-- Where page `pgno` starts in the database file. -/
def pageOfst (pgno : Int) : Int := (pgno - 1) * G.pageSize

def pagerReset : Io Unit := setPager fun p => { p with pPCache := .empty }

/-- Cut the database file off, or make it longer by a zero page at its end. -/
def resizeDatabase (currentSize newSize : Int) : Io Unit :=
  if newSize < currentSize then sqlite3OsTruncate .fd newSize
  else whenever (currentSize + G.pageSize ≤ newSize)
    (sqlite3OsWrite G .fd (fun _ => 0) G.pageSize (newSize - G.pageSize))

/-- The states in which the pager may write to the database file. -/
def Pager.mayWriteDatabase (p : Pager) : Bool :=
  EState.writerDbmod.rank ≤ p.eState.rank ∨ p.eState = .opened

def pagerTruncate (nPage : Int) : Io Unit := do
  let pPager ← getPager
  whenever pPager.mayWriteDatabase do
    let currentSize ← sqlite3OsFileSize .fd
    let newSize := G.pageSize * nPage
    whenever (currentSize ≠ newSize) do
      resizeDatabase G currentSize newSize
      setPager fun p => { p with dbFileSize := nPage }

def sqlite3PagerSync : Io Unit := sqlite3OsSync .fd

/-- Enter the error state when `m` fails with an I/O error or a full disk. -/
def pagerError {α : Type} (m : Io α) : Io α := do
  match ← attempt m with
  | .ok a => pure a
  | .error rc => do
    whenever (rc.isIoOrFull) (setPager fun p => { p with errCode := some rc, eState := .error })
    fail rc

/-! ## Playing the journal back -/

/-- Change the flags or the data of a page in the cache. -/
def setPage (pgno : Int) (g : PgHdr → PgHdr) : Io Unit :=
  setPager fun p => { p with pPCache := p.pPCache.update pgno g }

/-- Write a page from the journal back into the database file. -/
def restorePage (pgno : Int) (aData : Bytes) : Io Unit := do
  let rc ← attempt (sqlite3OsWrite G .fd aData G.pageSize (pageOfst G pgno))
  setPager fun p => { p with dbFileSize := max p.dbFileSize pgno }
  settle rc

/-- Put a page from the journal into the cache, if the cache has the page. -/
def reloadPage (pgno : Int) (aData : Bytes) : Io Unit := do
  let pPager ← getPager
  whenever ((pPager.pPCache.page pgno).isSome) do
    setPage pgno fun pPg => { pPg with pData := aData }
    whenever (pgno = 1) (setPager fun p => { p with dbFileVers := fun k => aData (24 + k) })

/-- One record of the journal. `false` is `SQLITE_DONE`. -/
def pagerPlaybackOnePage : Io Bool := do
  let pPager ← getPager
  let offset := pPager.journalOff
  let pgno ← read32bits .jfd offset
  let (complete, aData) ← sqlite3OsRead .jfd G.pageSize (offset + 4)
  if !complete then fail .ioerrShortRead
  else do
    setPager fun p => { p with journalOff := offset + G.journalPgSz }
    if pgno = 0 ∨ pgno = G.pagerMjPgno then pure false
    else if pPager.dbSize < pgno then pure true
    else do
      let cksum ← read32bits .jfd (offset + G.journalPgSz - 4)
      if pagerCksum G pPager.cksumInit aData ≠ UInt32.ofNat cksum.toNat then pure false
      else do
        -- what was not synced to the journal never reached the database file
        let rc ← attempt (whenever
          (pPager.mayWriteDatabase ∧ offset + G.journalPgSz ≤ pPager.journalHdr)
          (restorePage G pgno aData))
        reloadPage pgno aData
        settle rc
        pure true

/-- The loop over the records of one header. `false` ends the playback. -/
def playbackRecords (szJ : Int) : Nat → Io Bool
  | 0 => pure true
  | n + 1 => do
    match ← attempt (pagerPlaybackOnePage G) with
    | .ok true => playbackRecords szJ n
    | .ok false => do
      setPager fun p => { p with journalOff := szJ }
      pure true
    | .error .ioerrShortRead => pure false
    | .error rc => fail rc

/-- The number of records to play back after a header that says `nRec`. -/
def recordCount (isHot : Bool) (szJ nRec : Int) (pPager : Pager) : Int :=
  let nRec := if nRec = 0xffffffff then
    int32 ((szJ - G.sectorSize) / G.journalPgSz) % 4294967296 else nRec
  if nRec = 0 ∧ isHot = false ∧ pPager.journalHdr + G.sectorSize = pPager.journalOff then
    int32 ((szJ - pPager.journalOff) / G.journalPgSz) % 4294967296
  else nRec

/-- The loop over the headers of the journal; every round moves on by a
sector at least, so `n` rounds are enough for a journal of `n` sectors. -/
def playbackHeaders (isHot : Bool) (szJ : Int) : Nat → Bool → Io Unit
  | 0, _ => pure ()
  | n + 1, needPagerReset => do
    match ← readJournalHdr G isHot szJ with
    | none => pure ()
    | some (nRec, mxPg) => do
      let pPager ← getPager
      whenever (pPager.journalOff = G.sectorSize) do
        pagerTruncate G mxPg
        setPager fun p => { p with dbSize := mxPg }
      let count := recordCount G isHot szJ nRec pPager
      whenever (needPagerReset ∧ 0 < count) pagerReset
      let goOn ← playbackRecords G szJ count.toNat
      whenever goOn (playbackHeaders isHot szJ n (needPagerReset ∧ count ≤ 0))

/-- End a transaction and finalize the journal by deleting it. A reader only
holds a shared lock and has nothing to end. -/
def pagerEndTransaction (bCommit : Bool) : Io Unit := do
  let pPager ← getPager
  whenever (pPager.eState ≠ .reader) do
    let rc ← attempt (whenever pPager.jfdOpen do
      sqlite3OsCloseJournal
      sqlite3OsDeleteJournal)
    setPager fun p => { p with pInJournal := none, nRec := 0 }
    let rc ← attempt do
      settle rc
      setPager fun p => { p with
        pPCache := p.pPCache.sqlite3PcacheCleanAll.sqlite3PcacheTruncate p.dbSize }
      whenever (bCommit ∧ pPager.dbSize < pPager.dbFileSize) (pagerTruncate G pPager.dbSize)
    setPager fun p => { p with changeCountDone := false, eState := .reader }
    settle rc

/-- A journal that names a master journal is only hot while that one exists. -/
def masterExists (zMaster : Bool) : Io Bool :=
  if zMaster then sqlite3OsAccessMaster else pure true

def pagerPlayback (isHot : Bool) : Io Unit := do
  let rc ← attempt do
    let szJ ← sqlite3OsFileSize .jfd
    let zMaster ← readMasterJournal G
    let res ← masterExists zMaster
    whenever res do
      setPager fun p => { p with journalOff := 0 }
      playbackHeaders G isHot szJ (szJ / G.sectorSize + 1).toNat isHot
  setPager fun p => { p with changeCountDone := false }
  settle rc
  let _ ← readMasterJournal G
  let pPager ← getPager
  whenever pPager.mayWriteDatabase sqlite3PagerSync
  pagerEndTransaction G false

/-! ## Opening a read transaction -/

def pagerUnlock : Io Unit := setPager fun p => { p with
  pInJournal := none
  jfdOpen := false
  changeCountDone := false
  eState := .opened
  pPCache := if p.errCode.isSome then .empty else p.pPCache
  errCode := none
  journalOff := 0
  journalHdr := 0 }

def pagerPagecount : Io Int := do
  let n ← sqlite3OsFileSize .fd
  let nPage := (n + G.pageSize - 1) / G.pageSize
  setPager fun p => { p with mxPgno := max p.mxPgno nPage }
  pure nPage

/-- Whether there is a journal to be played back. -/
def hasHotJournal : Io Bool := do
  let exist ← sqlite3OsAccessJournal
  if !exist then pure false
  else do
    let nPage ← pagerPagecount G
    if nPage = 0 then do
      let _ ← attempt sqlite3OsDeleteJournal
      pure false
    else
      match ← attempt sqlite3OsOpenJournal with
      | .error .cantopen => pure true
      | .error rc => fail rc
      | .ok () => do
        let rc ← attempt (sqlite3OsRead .jfd 1 0)
        sqlite3OsCloseJournal
        let (_, first) ← settle rc
        pure (first 0 ≠ 0)

def pagerSyncHotJournal : Io Unit := do
  sqlite3OsSync .jfd
  let szJ ← sqlite3OsFileSize .jfd
  setPager fun p => { p with journalHdr := szJ }

/-- Play a hot journal back, if it is still there. -/
def recoverHotJournal : Io Unit := do
  let exist ← sqlite3OsAccessJournal
  whenever exist do
    sqlite3OsOpenJournal
    pagerSyncHotJournal
    let rc ← attempt (pagerPlayback G true)
    setPager fun p => { p with eState := .opened }
    settle rc

/-- Discard the cache when the database was changed behind its back. -/
def checkFileVers : Io Unit := do
  let pPager ← getPager
  whenever pPager.hasHeldSharedLock do
    let (complete, buf) ← sqlite3OsRead .fd 16 24
    let dbFileVers : Bytes := if complete then buf else fun _ => 0
    whenever ((List.range 16).any fun k => pPager.dbFileVers k ≠ dbFileVers k) pagerReset

def sqlite3PagerSharedLock : Io Unit := do
  let pPager ← getPager
  let rc ← attempt (whenever (pPager.eState = .opened) do
    let hot ← hasHotJournal G
    whenever hot (pagerError (recoverHotJournal G))
    checkFileVers
    let nPage ← pagerPagecount G
    setPager fun p => { p with dbSize := nPage })
  match rc with
  | .error rc => do
    pagerUnlock
    fail rc
  | .ok () => setPager fun p => { p with eState := .reader, hasHeldSharedLock := true }

/-! ## Reading pages -/

def readDbPage (pgno : Int) : Io Bytes := do
  match ← attempt (sqlite3OsRead .fd G.pageSize (pageOfst G pgno)) with
  | .error rc => do
    whenever (pgno = 1) (setPager fun p => { p with dbFileVers := fun _ => 0xff })
    fail rc
  | .ok (_, pData) => do
    whenever (pgno = 1) (setPager fun p => { p with dbFileVers := fun k => pData (24 + k) })
    pure pData

/-- The content of a page that is not in the cache. -/
def fetchPage (pgno : Int) : Io Bytes := do
  let pPager ← getPager
  if pPager.dbSize < pgno then pure fun _ => 0 else readDbPage G pgno

/-- `getPageNormal` for a page whose content is wanted, and `getPageError`. -/
def sqlite3PagerGet (pgno : Int) : Io PgHdr := do
  let pPager ← getPager
  match pPager.errCode with
  | some rc => fail rc
  | none =>
    if pgno = 0 then fail .corrupt
    else
      match pPager.pPCache.page pgno with
      | some pPg => pure pPg
      | none =>
        if PAGER_MAX_PGNO < pgno ∨ pgno = G.pagerMjPgno then fail .corrupt
        else if pPager.dbSize < pgno ∧ pPager.mxPgno < pgno then fail .full
        else do
          let pData ← fetchPage G pgno
          let pPg : PgHdr := ⟨pData, false, false⟩
          setPager fun p => { p with pPCache := p.pPCache.set pgno pPg }
          pure pPg

/-! ## Writing pages -/

def pagerOpenJournal (random : UInt32) : Io Unit := do
  let pPager ← getPager
  let rc ← attempt do
    setPager fun p => { p with pInJournal := some [] }
    whenever (pPager.jfdOpen = false) sqlite3OsOpenJournal
    setPager fun p => { p with nRec := 0, journalOff := 0, journalHdr := 0 }
    writeJournalHdr G random
  match rc with
  | .error rc => do
    setPager fun p => { p with pInJournal := none }
    fail rc
  | .ok () => setPager fun p => { p with eState := .writerCachemod }

def sqlite3PagerBegin : Io Unit := do
  let pPager ← getPager
  match pPager.errCode with
  | some rc => fail rc
  | none => whenever (pPager.eState = .reader) (setPager fun p => { p with
      eState := .writerLocked
      dbFileSize := p.dbSize
      dbOrigSize := p.dbSize
      journalOff := 0 })

def pagerAddPageToRollbackJournal (pgno : Int) (pData : Bytes) : Io Unit := do
  let pPager ← getPager
  let iOff := pPager.journalOff
  let cksum := pagerCksum G pPager.cksumInit pData
  setPage pgno fun pPg => { pPg with needSync := true }
  write32bits G .jfd iOff pgno
  sqlite3OsWrite G .jfd pData G.pageSize (iOff + 4)
  write32bits G .jfd (iOff + G.pageSize + 4) cksum.toNat
  setPager fun p => { p with
    journalOff := iOff + G.journalPgSz
    nRec := p.nRec + 1
    pInJournal := p.pInJournal.map (pgno :: ·) }

/-- Put a page that is about to change into the journal, if it belongs there
and is not there yet. -/
def journalPage (pgno : Int) : Io Unit := do
  let pPager ← getPager
  match pPager.pInJournal with
  | none => pure ()
  | some pages =>
    if pgno ∈ pages then pure ()
    else if pgno ≤ pPager.dbOrigSize then
      match pPager.pPCache.page pgno with
      | some pPg => pagerAddPageToRollbackJournal G pgno pPg.pData
      | none => pure ()
    else if pPager.eState ≠ .writerDbmod then
      setPage pgno fun pPg => { pPg with needSync := true }
    else pure ()

def pagerWrite (random : UInt32) (pgno : Int) : Io Unit := do
  let pPager ← getPager
  whenever (pPager.eState = .writerLocked) (pagerOpenJournal G random)
  setPager fun p => { p with pPCache := p.pPCache.sqlite3PcacheMakeDirty pgno }
  journalPage G pgno
  let pPager ← getPager
  setPage pgno fun pPg => { pPg with writeable := true }
  whenever (pPager.dbSize < pgno) (setPager fun p => { p with dbSize := pgno })

/-- Make the page, which is in the cache, writeable. -/
def sqlite3PagerWrite (random : UInt32) (pgno : Int) : Io Unit := do
  let pPager ← getPager
  let writeable := (pPager.pPCache.page pgno).any PgHdr.writeable
  if writeable ∧ pgno ≤ pPager.dbSize then pure ()
  else
    match pPager.errCode with
    | some rc => fail rc
    | none => pagerWrite G random pgno

/-! ## Syncing the journal and writing to the database -/

/-- The magic and the number of records, the twelve bytes that make the
records behind a header part of the journal. -/
def syncedHeader (nRec : Int) : Bytes := fun k =>
  if k < 8 then aJournalMagic k else sqlite3Put4byte nRec (k - 8)

/-- Zero the first byte of a stale header that follows the records. -/
def eraseNextHdr : Io Unit := do
  let pPager ← getPager
  let iNextHdrOffset := journalHdrOffset G pPager.journalOff
  let (complete, aMagic) ← sqlite3OsRead .jfd 8 iNextHdrOffset
  whenever (complete && isMagic aMagic)
    (sqlite3OsWrite G .jfd (fun _ => 0) 1 iNextHdrOffset)

def syncJournal (random : UInt32) (newHdr : Bool) : Io Unit := do
  let pPager ← getPager
  match pPager.errCode with
  | some rc => fail rc
  | none => do
    whenever pPager.jfdOpen do
      eraseNextHdr G
      sqlite3OsSync .jfd
      sqlite3OsWrite G .jfd (syncedHeader pPager.nRec) 12 pPager.journalHdr
      sqlite3OsSync .jfd
      setPager fun p => { p with journalHdr := p.journalOff }
      whenever newHdr do
        setPager fun p => { p with nRec := 0 }
        writeJournalHdr G random
    setPager fun p => { p with
      pPCache := p.pPCache.sqlite3PcacheClearSyncFlags
      eState := .writerDbmod }

def SQLITE_VERSION_NUMBER : Int := 3024000

/-- The change counter, and the library version it is valid for. -/
def pagerWriteChangecounter (dbFileVers pData : Bytes) : Bytes :=
  let changeCounter := sqlite3Put4byte ((sqlite3Get4byte dbFileVers + 1) % 4294967296)
  overlay (overlay (overlay pData changeCounter 24 4) changeCounter 92 4)
    (sqlite3Put4byte SQLITE_VERSION_NUMBER) 96 4

/-- Update the change counter in page 1, which is in the cache. -/
def stampPageOne : Io Unit := do
  let pPager ← getPager
  setPage 1 fun pPg => { pPg with pData := pagerWriteChangecounter pPager.dbFileVers pPg.pData }

/-- Write the page as it is in the cache. -/
def writePageOut (pgno : Int) : Io Unit := do
  let pPager ← getPager
  match pPager.pPCache.page pgno with
  | none => pure ()
  | some pPg => do
    let rc ← attempt (sqlite3OsWrite G .fd pPg.pData G.pageSize (pageOfst G pgno))
    whenever (pgno = 1) (setPager fun p => { p with dbFileVers := fun k => pPg.pData (24 + k) })
    whenever (pPager.dbFileSize < pgno) (setPager fun p => { p with dbFileSize := pgno })
    settle rc

def pagerWritePagelist : List Int → Io Unit
  | [] => pure ()
  | pgno :: pList => do
    let pPager ← getPager
    whenever (pgno ≤ pPager.dbSize) do
      whenever (pgno = 1) stampPageOne
      writePageOut G pgno
    pagerWritePagelist pList

/-- Write a dirty page to the database file to make room in the cache. -/
def pagerStress (random : UInt32) (pgno : Int) : Io Unit := do
  let pPager ← getPager
  whenever (pPager.errCode = none) (pagerError do
    let needSync := (pPager.pPCache.page pgno).any PgHdr.needSync
    whenever (needSync ∨ pPager.eState = .writerCachemod) (syncJournal G random true)
    pagerWritePagelist G [pgno]
    setPager fun p => { p with pPCache := p.pPCache.sqlite3PcacheMakeClean pgno })

/-! ## Commit and rollback -/

def sqlite3PagerTruncateImage (nPage : Int) : Io Unit :=
  setPager fun p => { p with dbSize := nPage }

def pagerIncrChangecounter (random : UInt32) : Io Unit := do
  let pPager ← getPager
  whenever (pPager.changeCountDone = false ∧ 0 < pPager.dbSize) do
    let _ ← sqlite3PagerGet G 1
    sqlite3PagerWrite G random 1
    stampPageOne
    setPager fun p => { p with changeCountDone := true }

def sqlite3PagerCommitPhaseOne (random : UInt32) : Io Unit := do
  let pPager ← getPager
  match pPager.errCode with
  | some rc => fail rc
  | none => whenever (EState.writerCachemod.rank ≤ pPager.eState.rank) do
      pagerIncrChangecounter G random
      syncJournal G random false
      let pPager ← getPager
      pagerWritePagelist G pPager.pPCache.sqlite3PcacheDirtyList
      setPager fun p => { p with pPCache := p.pPCache.sqlite3PcacheCleanAll }
      let pPager ← getPager
      whenever (pPager.dbFileSize < pPager.dbSize)
        (pagerTruncate G (if pPager.dbSize = G.pagerMjPgno then pPager.dbSize - 1
          else pPager.dbSize))
      sqlite3PagerSync
      setPager fun p => { p with eState := .writerFinished }

def sqlite3PagerCommitPhaseTwo : Io Unit := do
  let pPager ← getPager
  match pPager.errCode with
  | some rc => fail rc
  | none => pagerError (pagerEndTransaction G true)

def sqlite3PagerRollback : Io Unit := do
  let pPager ← getPager
  match pPager.errCode with
  | some rc => fail rc
  | none =>
    if pPager.eState.rank ≤ EState.reader.rank then pure ()
    else if pPager.jfdOpen = false ∨ pPager.eState = .writerLocked then do
      let rc ← attempt (pagerEndTransaction G false)
      if EState.writerLocked.rank < pPager.eState.rank then
        setPager fun p => { p with errCode := some .abort, eState := .error }
        settle rc
      else pagerError (settle rc)
    else pagerError (pagerPlayback G false)

/-- The last reference to a page is given back. -/
def pagerUnlockAndRollback : Io Unit := do
  let pPager ← getPager
  whenever (EState.writerLocked.rank ≤ pPager.eState.rank ∧ pPager.eState ≠ .error) do
    let _ ← attempt (sqlite3PagerRollback G)
  pagerUnlock

end SqliteFs
