import SqliteFs.Storage
import SqliteFs.Lib.FaultyProgram

/-!
The pager, with rollback journals that are deleted at the end of a
transaction, locks that always succeed and a device without special
characteristics. It runs with `synchronous=EXTRA`, which asks for the deletion
of a journal to be synced (`extraSync`), over a VFS that then syncs the
directory. With the default `extraSync = 0`, or over `fsDelete`, which syncs
nothing, a deleted journal may be back after a loss of power and roll a commit
back that was reported; that is not what is modelled. This module has the state
of the pager, the two files it works on and the calls it makes on them.
-/

namespace SqliteFs

open Lib

/-- The result codes of the pager other than `SQLITE_OK` and `SQLITE_DONE`. -/
inductive Code where
  | full
  | ioerr
  | ioerrShortRead
  | cantopen
  | corrupt
  | abort
  deriving DecidableEq, Repr

/-- `SQLITE_FULL` or one of the `SQLITE_IOERR` codes. -/
def Code.isIoOrFull : Code → Bool
  | .full | .ioerr | .ioerrShortRead => true
  | .cantopen | .corrupt | .abort => false

/-- The page size of the database, the sector size of the device and the
longest path name of the VFS. -/
structure Geometry where
  pageSize : Int
  sectorSize : Int
  mxPathname : Int
  pageSize_pow : ∃ n : Nat, 9 ≤ n ∧ n ≤ 16 ∧ pageSize = 2 ^ n
  sectorSize_pow : ∃ n : Nat, 5 ≤ n ∧ sectorSize = 2 ^ n
  sector_le_page : sectorSize ≤ pageSize

namespace Geometry

variable (G : Geometry)

theorem pageSize_bounds : 512 ≤ G.pageSize ∧ G.pageSize ≤ 65536 := by
  obtain ⟨n, hlo, hhi, hn⟩ := G.pageSize_pow
  rw [hn]
  interval_cases n <;> decide

theorem sectorSize_bounds : 32 ≤ G.sectorSize ∧ G.sectorSize ≤ 65536 := by
  obtain ⟨n, hn, hs⟩ := G.sectorSize_pow
  constructor
  · rw [hs]
    calc (32 : Int) = 2 ^ 5 := by norm_num
      _ ≤ 2 ^ n := pow_le_pow_right₀ (by norm_num) hn
  · exact G.sector_le_page.trans G.pageSize_bounds.2

/-- `JOURNAL_PG_SZ`. -/
def journalPgSz : Int := G.pageSize + 8

/-- `PAGER_MJ_PGNO`: the page of the locking bytes. -/
def pagerMjPgno : Int := 0x40000000 / G.pageSize + 1

end Geometry

/-- A page in the cache. It is dirty if it is on the dirty list. -/
structure PgHdr where
  pData : Bytes
  needSync : Bool
  writeable : Bool

structure PCache where
  page : Int → Option PgHdr
  pDirty : List Int

namespace PCache

def empty : PCache := ⟨fun _ => none, []⟩

def set (c : PCache) (pgno : Int) (pPg : PgHdr) : PCache :=
  { c with page := Function.update c.page pgno (some pPg) }

/-- Change the flags or the data of a page, if the cache has it. -/
def update (c : PCache) (pgno : Int) (g : PgHdr → PgHdr) : PCache where
  page := fun p => if p = pgno then (c.page p).map g else c.page p
  pDirty := c.pDirty

def sqlite3PcacheDrop (c : PCache) (pgno : Int) : PCache :=
  ⟨Function.update c.page pgno none, c.pDirty.filter (· ≠ pgno)⟩

def sqlite3PcacheMakeDirty (c : PCache) (pgno : Int) : PCache :=
  if pgno ∈ c.pDirty then c else { c with pDirty := pgno :: c.pDirty }

def PgHdr.clean (pPg : PgHdr) : PgHdr := { pPg with needSync := false, writeable := false }

def sqlite3PcacheMakeClean (c : PCache) (pgno : Int) : PCache where
  page := fun p => if p = pgno then (c.page p).map PgHdr.clean else c.page p
  pDirty := c.pDirty.filter (· ≠ pgno)

/-- Only dirty pages carry flags, so cleaning those cleans all. -/
def sqlite3PcacheCleanAll (c : PCache) : PCache where
  page := fun p => if p ∈ c.pDirty then (c.page p).map PgHdr.clean else c.page p
  pDirty := []

def sqlite3PcacheClearSyncFlags (c : PCache) : PCache where
  page := fun p =>
    if p ∈ c.pDirty then (c.page p).map fun pPg => { pPg with needSync := false } else c.page p
  pDirty := c.pDirty

/-- Drop the pages above `pgno`; the pages are clean when this is called. -/
def sqlite3PcacheTruncate (c : PCache) (pgno : Int) : PCache where
  page := fun p => if pgno < p then none else c.page p
  pDirty := c.pDirty.filter (· ≤ pgno)

/-- The dirty pages by number. -/
def sqlite3PcacheDirtyList (c : PCache) : List Int := c.pDirty.mergeSort (· ≤ ·)

end PCache

/-- The states of the pager, in the order in which the code compares them. -/
inductive EState where
  | opened
  | reader
  | writerLocked
  | writerCachemod
  | writerDbmod
  | writerFinished
  | error
  deriving DecidableEq, Repr

def EState.rank : EState → Nat
  | .opened => 0
  | .reader => 1
  | .writerLocked => 2
  | .writerCachemod => 3
  | .writerDbmod => 4
  | .writerFinished => 5
  | .error => 6

structure Pager where
  eState : EState
  errCode : Option Code
  dbSize : Int
  dbOrigSize : Int
  dbFileSize : Int
  mxPgno : Int
  journalOff : Int
  journalHdr : Int
  nRec : Int
  cksumInit : UInt32
  pInJournal : Option (List Int)
  jfdOpen : Bool
  changeCountDone : Bool
  hasHeldSharedLock : Bool
  dbFileVers : Bytes
  pPCache : PCache

/-- `SQLITE_MAX_PAGE_COUNT`, the page limit a pager starts with. -/
def SQLITE_MAX_PAGE_COUNT : Int := 1073741823

/-- `PAGER_MAX_PGNO`. -/
def PAGER_MAX_PGNO : Int := 2147483647

/-- A pager that was just opened. -/
def Pager.opened : Pager where
  eState := .opened
  errCode := none
  dbSize := 0
  dbOrigSize := 0
  dbFileSize := 0
  mxPgno := SQLITE_MAX_PAGE_COUNT
  journalOff := 0
  journalHdr := 0
  nRec := 0
  cksumInit := 0
  pInJournal := none
  jfdOpen := false
  changeCountDone := false
  hasHeldSharedLock := false
  dbFileVers := fun _ => 0
  pPCache := .empty

/-- The pager and what is on the device: the database file, the journal file,
and whether the latter exists. A journal that does not exist is blank. A
master journal, should a journal name one, is there or not. -/
structure World where
  pager : Pager
  fd : Store
  jfd : Store
  journalExists : Bool
  masterExists : Bool

inductive FileId where
  | fd
  | jfd

namespace World

def file (w : World) : FileId → Store
  | .fd => w.fd
  | .jfd => w.jfd

def setFile (w : World) (id : FileId) (s : Store) : World :=
  match id with
  | .fd => { w with fd := s }
  | .jfd => { w with jfd := s }

end World

/-- The code of a call that failed. -/
def IoOutcome.code (full : Bool) : Code := if full then .full else .ioerr

theorem IoOutcome.code_isIoOrFull (full : Bool) : (IoOutcome.code full).isIoOrFull = true := by
  cases full with
  | true => rfl
  | false => rfl

/-- What the pager runs: calls to the device end as their outcomes say. -/
abbrev Io := Prog IoOutcome World Code

open Prog

section Os

variable (G : Geometry)

/-- A call to the device that changes `w` to `(done w).2` when it is carried
out and to `failed kept w` when it is not. -/
def osCall {α : Type} (done : World → α × World) (failed : Kept → World → World) : Io α :=
  step fun o w =>
    match o with
    | .done => (.ok (done w).1, (done w).2)
    | .fails full kept => (.error (IoOutcome.code full), failed kept w)

/-- Whether all `iAmt` bytes were there, and what was read. A short read is
filled up with zeros. -/
def sqlite3OsRead (id : FileId) (iAmt iOfst : Int) : Io (Bool × Bytes) :=
  osCall (fun w => ((decide (iOfst + iAmt ≤ (w.file id).now.size),
    fun k => (w.file id).now.byte (iOfst + k)), w)) fun _ w => w

def sqlite3OsWrite (id : FileId) (zBuf : Bytes) (iAmt iOfst : Int) : Io Unit :=
  step fun o w =>
    match o with
    | .done => (.ok (), w.setFile id ((w.file id).write G.sectorSize o zBuf iOfst iAmt))
    | .fails full _ =>
      (.error (IoOutcome.code full),
        w.setFile id ((w.file id).write G.sectorSize o zBuf iOfst iAmt))

def sqlite3OsTruncate (id : FileId) (size : Int) : Io Unit :=
  osCall (fun w => ((), w.setFile id ((w.file id).truncate size))) fun _ w => w

def sqlite3OsSync (id : FileId) : Io Unit :=
  osCall (fun w => ((), w.setFile id (w.file id).flush)) fun _ w => w

def sqlite3OsFileSize (id : FileId) : Io Int :=
  osCall (fun w => ((w.file id).now.size, w)) fun _ w => w

/-- Open the journal, creating it if it does not exist. An open that fails
does so with `SQLITE_CANTOPEN` or with an I/O error. -/
def sqlite3OsOpenJournal : Io Unit :=
  step fun o w =>
    match o with
    | .done => (.ok (), { w with
        pager := { w.pager with jfdOpen := true }
        journalExists := true })
    | .fails full _ => (.error (if full then .ioerr else .cantopen), w)

def sqlite3OsCloseJournal : Io Unit :=
  modify fun w => { w with pager := { w.pager with jfdOpen := false } }

/-- Delete the journal. As `extraSync` is set and the VFS syncs the directory, a
deletion that is reported is on the device. -/
def sqlite3OsDeleteJournal : Io Unit :=
  osCall (fun w => ((), { w with jfd := .settled .blank, journalExists := false })) fun _ w => w

def sqlite3OsAccessJournal : Io Bool := osCall (fun w => (w.journalExists, w)) fun _ w => w

def sqlite3OsAccessMaster : Io Bool := osCall (fun w => (w.masterExists, w)) fun _ w => w

end Os

/-- `sqlite3Put4byte` as the four bytes it stores. -/
def sqlite3Put4byte (v : Int) : Bytes := fun k =>
  UInt8.ofNat (v / 2 ^ (8 * (3 - k)).toNat % 256).toNat

def sqlite3Get4byte (p : Bytes) : Int :=
  (p 0).toNat * 16777216 + (p 1).toNat * 65536 + (p 2).toNat * 256 + (p 3).toNat

/-- `read32bits`. -/
def read32bits (id : FileId) (offset : Int) : Io Int := do
  let (complete, ac) ← sqlite3OsRead id 4 offset
  if complete then pure (sqlite3Get4byte ac) else fail .ioerrShortRead

def write32bits (G : Geometry) (id : FileId) (offset val : Int) : Io Unit :=
  sqlite3OsWrite G id (sqlite3Put4byte val) 4 offset

def getPager : Io Pager := World.pager <$> state

def setPager (g : Pager → Pager) : Io Unit := modify fun w => { w with pager := g w.pager }

/-! ## Rules for the calls to the device -/

section Rules

variable {G : Geometry} {w : World} {id : FileId} {E : Code → World → Prop}

theorem wp_getPager {Q : Pager → World → Prop} (h : Q w.pager w) : wp getPager Q E w :=
  wp_map (wp_state h)

theorem wp_setPager {g : Pager → Pager} {Q : Unit → World → Prop}
    (h : Q () { w with pager := g w.pager }) : wp (setPager g) Q E w :=
  wp_modify h

theorem wp_osCall {α : Type} {done : World → α × World} {failed : Kept → World → World}
    {Q : α → World → Prop} (hok : Q (done w).1 (done w).2)
    (herr : ∀ full kept, E (IoOutcome.code full) (failed kept w)) :
    wp (osCall done failed) Q E w := by
  apply wp_step
  intro o
  cases o with
  | done => exact hok
  | fails full kept => exact herr full kept

theorem wp_sqlite3OsRead {iAmt iOfst : Int} {Q : Bool × Bytes → World → Prop}
    (hok : Q (decide (iOfst + iAmt ≤ (w.file id).now.size),
      fun k => (w.file id).now.byte (iOfst + k)) w)
    (herr : ∀ full, E (IoOutcome.code full) w) : wp (sqlite3OsRead id iAmt iOfst) Q E w :=
  wp_osCall hok fun full _ => herr full

theorem wp_sqlite3OsWrite {zBuf : Bytes} {iAmt iOfst : Int} {Q : Unit → World → Prop}
    (hok : Q () (w.setFile id ((w.file id).write G.sectorSize .done zBuf iOfst iAmt)))
    (herr : ∀ full kept, E (IoOutcome.code full)
      (w.setFile id ((w.file id).write G.sectorSize (.fails full kept) zBuf iOfst iAmt))) :
    wp (sqlite3OsWrite G id zBuf iAmt iOfst) Q E w := by
  apply wp_step
  intro o
  cases o with
  | done => exact hok
  | fails full kept => exact herr full kept

theorem wp_sqlite3OsTruncate {size : Int} {Q : Unit → World → Prop}
    (hok : Q () (w.setFile id ((w.file id).truncate size)))
    (herr : ∀ full, E (IoOutcome.code full) w) : wp (sqlite3OsTruncate id size) Q E w :=
  wp_osCall hok fun full _ => herr full

theorem wp_sqlite3OsSync {Q : Unit → World → Prop} (hok : Q () (w.setFile id (w.file id).flush))
    (herr : ∀ full, E (IoOutcome.code full) w) : wp (sqlite3OsSync id) Q E w :=
  wp_osCall hok fun full _ => herr full

theorem wp_sqlite3OsFileSize {Q : Int → World → Prop} (hok : Q (w.file id).now.size w)
    (herr : ∀ full, E (IoOutcome.code full) w) : wp (sqlite3OsFileSize id) Q E w :=
  wp_osCall hok fun full _ => herr full

/-- A 32-bit number that lies inside the file is read, or the call fails. -/
theorem wp_read32bits {offset : Int} {Q : Int → World → Prop}
    (hin : offset + 4 ≤ (w.file id).now.size)
    (hok : Q (sqlite3Get4byte fun k => (w.file id).now.byte (offset + k)) w)
    (herr : ∀ full, E (IoOutcome.code full) w) : wp (read32bits id offset) Q E w := by
  apply wp_bind
  apply wp_sqlite3OsRead
  · simp only [hin, decide_true, if_true]
    exact wp_pure hok
  · exact herr

/-- Wherever it is read from, a 32-bit number is there or the read is short. -/
theorem wp_read32bits_any {offset : Int} {Q : Int → World → Prop}
    (hok : offset + 4 ≤ (w.file id).now.size →
      Q (sqlite3Get4byte fun k => (w.file id).now.byte (offset + k)) w)
    (herr : ∀ rc, rc.isIoOrFull = true → E rc w) : wp (read32bits id offset) Q E w := by
  apply wp_bind
  apply wp_sqlite3OsRead
  · apply wp_ite
    · exact fun hin => wp_pure (hok (of_decide_eq_true hin))
    · exact fun _ => wp_fail (herr _ rfl)
  · exact fun full => herr _ (IoOutcome.code_isIoOrFull full)

end Rules

theorem sqlite3Get4byte_put4byte {v : Int} (hlo : 0 ≤ v) (hhi : v < 4294967296) :
    sqlite3Get4byte (sqlite3Put4byte v) = v := by
  have hbyte : ∀ k, ((sqlite3Put4byte v k).toNat : Int) = v / 2 ^ (8 * (3 - k)).toNat % 256 := by
    intro k
    simp only [sqlite3Put4byte, UInt8.toNat_ofNat']
    omega
  have h0 : ((sqlite3Put4byte v 0).toNat : Int) = v / 16777216 % 256 := hbyte 0
  have h1 : ((sqlite3Put4byte v 1).toNat : Int) = v / 65536 % 256 := hbyte 1
  have h2 : ((sqlite3Put4byte v 2).toNat : Int) = v / 256 % 256 := hbyte 2
  have h3 : ((sqlite3Put4byte v 3).toNat : Int) = v / 1 % 256 := hbyte 3
  simp only [sqlite3Get4byte, h0, h1, h2, h3]
  omega

/-- Only the four bytes count. -/
theorem sqlite3Get4byte_congr {p q : Bytes} (h : ∀ k, 0 ≤ k → k < 4 → p k = q k) :
    sqlite3Get4byte p = sqlite3Get4byte q := by
  simp only [sqlite3Get4byte, h 0 (by norm_num) (by norm_num), h 1 (by norm_num) (by norm_num),
    h 2 (by norm_num) (by norm_num), h 3 (by norm_num) (by norm_num)]

end SqliteFs
