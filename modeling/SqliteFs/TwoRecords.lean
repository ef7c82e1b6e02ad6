import SqliteFs.Registered

/-!
The two handles of a database on the registered table. `fs_open` makes a record
for each of them out of what the drive tells, and `fsWrite` and `fsTruncate`
change the record of their own handle only. The space check of each side reads
both sizes, so the regions stay apart as long as the two records hold the same.
-/

namespace SqliteFs

open Lib

/-- A handle that `fs_open` has filled in. -/
structure OpenFile (eType : EType) where
  p : MfsSqliteVfs
  real_file : SqvfsRfile
  etype_eq : p.etype = eType
  real_eq : p.realFile = some real_file

namespace OpenFile

variable {eType : EType}

/-- The sizes that the space checks of this handle use. -/
def sizes (h : OpenFile eType) : Sizes := h.real_file.asReal.toSizes

def setSizes (h : OpenFile eType) (z : Sizes) : OpenFile eType where
  p := { h.p with realFile := some (h.real_file.setSizes z) }
  real_file := h.real_file.setSizes z
  etype_eq := h.etype_eq
  real_eq := rfl

@[simp] theorem setSizes_sizes (h : OpenFile eType) (z : Sizes) : (h.setSizes z).sizes = z := rfl

variable {p : MfsSqliteVfs} {d : Drive} {zName : Name} {flags : Nat} {malloc : Bool}
  {handle : Int} {io : Nat → Transfer}

/-- What `fs_open` leaves in the memory of a handle when it succeeds. -/
def ofOpen (hok : (fs_open p d zName flags malloc handle io).1 = .ok) :
    OpenFile (openType flags) where
  p := (fs_open p d zName flags malloc handle io).2.1
  real_file := ⟨none, zName, recordedSize d.file .database, recordedSize d.file .journal,
    BLOBSIZE, 0⟩
  etype_eq := by rw [(fs_open_ok hok).1]
  real_eq := by rw [(fs_open_ok hok).1]

theorem ofOpen_sizes (hok : (fs_open p d zName flags malloc handle io).1 = .ok) :
    (ofOpen hok).sizes = recordedSizes d.file := by
  simp only [sizes, ofOpen, SqvfsRfile.asReal, recordedSizes]

end OpenFile

/-- The drive and the handles of one database and its journal. -/
structure Registered where
  drive : Drive
  opened : ∀ eType, Option (OpenFile eType)

inductive RegisteredCall where
  | xOpen (zName : Name) (flags : Nat) (malloc : Bool) (handle : Int) (io : Nat → Transfer)
  | xWrite (eType : EType) (zBuf : Bytes) (iAmt iOfst : Int)
  | xTruncate (eType : EType) (size : Int)

namespace Registered

def start (d : Drive) : Registered := ⟨d, fun _ => none⟩

/-- SQLite clears the memory of a handle before it opens it. -/
def blankHandle : MfsSqliteVfs := ⟨false, 0, .database, none⟩

/-- One call through the registered table. The methods write to the drive,
every transfer of theirs being carried out. -/
def step (s : Registered) : RegisteredCall → Option (Registered × Rc)
  | .xOpen zName flags malloc handle io =>
    let out := fs_open blankHandle s.drive zName flags malloc handle io
    if s.opened (openType flags) = none then
      if hok : (fs_open blankHandle s.drive zName flags malloc handle io).1 = .ok then
        some (⟨out.2.2, Function.update s.opened (openType flags) (some (.ofOpen hok))⟩, .ok)
      else some ({ s with drive := out.2.2 }, out.1)
    else none
  | .xWrite eType zBuf iAmt iOfst => (s.opened eType).map fun h =>
    let put := fsWrite h.p.etype h.sizes s.drive.file carriedOut zBuf iAmt iOfst
    (⟨{ s.drive with file := put.2.2 },
      Function.update s.opened eType (some (h.setSizes put.2.1))⟩, put.1)
  | .xTruncate eType size => (s.opened eType).map fun h =>
    let sizes := fsTruncate h.p.etype h.sizes size
    ({ s with opened := Function.update s.opened eType (some (h.setSizes sizes)) }, .ok)

def next (s : Registered) (c : RegisteredCall) : Option Registered := (s.step c).map Prod.fst

theorem next_eq_some {s t : Registered} {c : RegisteredCall} :
    s.next c = some t ↔ ∃ rc, s.step c = some (t, rc) := by
  simp [next, Option.map_eq_some_iff]

/-- The sizes that the handle of this type uses, while it is open. -/
def account (s : Registered) (eType : EType) : Option Sizes := (s.opened eType).map (·.sizes)

theorem account_update (s : Registered) (d : Drive) {eType : EType} (h : OpenFile eType) :
    account ⟨d, Function.update s.opened eType (some h)⟩ =
      Function.update s.account eType (some h.sizes) := by
  funext e
  by_cases he : e = eType
  · subst he
    simp only [account, Function.update_self, Option.map_some]
  · simp only [account, Function.update_of_ne he]

variable {s t : Registered} {rc : Rc}

theorem step_open {zName : Name} {flags : Nat} {malloc : Bool} {handle : Int}
    {io : Nat → Transfer}
    (hstep : s.step (.xOpen zName flags malloc handle io) = some (t, rc)) :
    rc = (fs_open blankHandle s.drive zName flags malloc handle io).1 ∧
      ((rc = .ok ∧ t.account =
          Function.update s.account (openType flags) (some (recordedSizes s.drive.file))) ∨
        (rc ≠ .ok ∧ t.account = s.account)) := by
  simp only [step] at hstep
  split_ifs at hstep with hnone hok
  · cases hstep
    refine ⟨hok.symm, Or.inl ⟨rfl, ?_⟩⟩
    rw [account_update, OpenFile.ofOpen_sizes]
  · cases hstep
    exact ⟨rfl, Or.inr ⟨hok, rfl⟩⟩

theorem step_write {eType : EType} {zBuf : Bytes} {iAmt iOfst : Int}
    (hstep : s.step (.xWrite eType zBuf iAmt iOfst) = some (t, rc)) :
    ∃ z, s.account eType = some z ∧
      let put := fsWrite eType z s.drive.file carriedOut zBuf iAmt iOfst
      t.account = Function.update s.account eType (some put.2.1) ∧ t.drive.file = put.2.2 ∧
        rc = put.1 := by
  obtain ⟨h, hopened, heq⟩ := Option.map_eq_some_iff.mp hstep
  cases heq
  refine ⟨h.sizes, by rw [account, hopened, Option.map_some], ?_, ?_, ?_⟩
  · rw [account_update, OpenFile.setSizes_sizes, h.etype_eq]
  · simp only [h.etype_eq]
  · simp only [h.etype_eq]

theorem step_truncate {eType : EType} {size : Int}
    (hstep : s.step (.xTruncate eType size) = some (t, rc)) :
    ∃ z, s.account eType = some z ∧
      t.account = Function.update s.account eType (some (fsTruncate eType z size)) := by
  obtain ⟨h, hopened, heq⟩ := Option.map_eq_some_iff.mp hstep
  cases heq
  refine ⟨h.sizes, by rw [account, hopened, Option.map_some], ?_⟩
  rw [account_update, OpenFile.setSizes_sizes, h.etype_eq]

end Registered

/-! ## When a record keeps its account -/

/-- The other file of the pair. -/
def EType.other : EType → EType
  | .database => .journal
  | .journal => .database

theorem EType.other_ne (eType : EType) : eType.other ≠ eType := by
  cases eType with
  | database => decide
  | journal => decide

theorem EType.eq_or_eq_other (e eType : EType) : e = eType ∨ e.other = eType := by
  cases e with
  | database => cases eType with
    | database => exact Or.inl rfl
    | journal => exact Or.inr rfl
  | journal => cases eType with
    | database => exact Or.inr rfl
    | journal => exact Or.inl rfl

/-- The space check of the handle refuses this write: the database side has no
room up to the journal, or the lowest chunk of a journal range would start
inside the database or before the start of the drive. -/
def Sizes.Refuses (z : Sizes) (iAmt iOfst : Int) : EType → Prop
  | .database => int32 (z.nBlob - z.nJournal) < iAmt + iOfst + BLOCKSIZE
  | .journal =>
    journalAddr z.nBlob (lastStart iOfst iAmt) < max 0 (int32 (z.nDatabase + BLOCKSIZE))

/-- Sizes that a record of `fs_open` can hold. -/
structure Sizes.Plain (z : Sizes) : Prop where
  nBlob_eq : z.nBlob = BLOBSIZE
  nDatabase : -2147483648 ≤ z.nDatabase ∧ z.nDatabase < 2147483648
  nJournal : -2147483648 ≤ z.nJournal ∧ z.nJournal < 2147483648

section

variable {z : Sizes} {f : ParentFile} {zBuf : Bytes} {iAmt iOfst size : Int} {eType : EType}

theorem fsWrite_database_full (hfull : z.Refuses iAmt iOfst .database) :
    fsWrite .database z f carriedOut zBuf iAmt iOfst = (.full, z, f) := by
  have hpast : iAmt + iOfst + BLOCKSIZE > int32 (z.nBlob - z.nJournal) := hfull
  unfold fsWrite
  rw [if_pos rfl, if_pos hpast]

theorem fsWrite_database_sizes (hargs : WriteArgs .database iAmt iOfst)
    (hroom : ¬z.Refuses iAmt iOfst .database) :
    fsWrite .database z f carriedOut zBuf iAmt iOfst =
      (.ok, { z with nDatabase := int32 (max z.nDatabase (iAmt + iOfst)) },
        f.put zBuf (databaseAddr iOfst) iAmt) := by
  have hofst := hargs.ofst
  have hfit : ¬iAmt + iOfst + BLOCKSIZE > int32 (z.nBlob - z.nJournal) := hroom
  unfold fsWrite
  rw [if_pos rfl, if_neg hfit]
  have hput : f.xWrite (carriedOut 0) zBuf iAmt (iOfst + BLOCKSIZE) =
      (.ok, f.put zBuf (databaseAddr iOfst) iAmt) :=
    ParentFile.xWrite_done (by simp only [BLOCKSIZE]; omega)
  simp only [hput, if_true]

theorem journal_ok_iff_not_refuses (hz : z.Plain) (hargs : WriteArgs .journal iAmt iOfst)
    (f : ParentFile) (zBuf : Bytes) :
    (writeChunks z f carriedOut zBuf iAmt 0 iOfst).1 = .ok ↔ ¬z.Refuses iAmt iOfst .journal := by
  rw [writeChunks_ok_iff (hz.nBlob_eq ▸ wholeBlob_BLOBSIZE) carriedOut_ideal
    hargs.journalRange, startsAbove_iff hargs.amt]
  exact not_lt.symm

theorem Sizes.set_nDatabase_eq {n : Int} : { z with nDatabase := n } = z ↔ n = z.nDatabase := by
  constructor
  · intro h
    exact congrArg Sizes.nDatabase h
  · rintro rfl
    rfl

theorem Sizes.set_nJournal_eq {n : Int} : { z with nJournal := n } = z ↔ n = z.nJournal := by
  constructor
  · intro h
    exact congrArg Sizes.nJournal h
  · rintro rfl
    rfl

/-- A write keeps the account of its handle exactly when it ends inside the
region or is refused. -/
theorem fsWrite_keeps_iff (hz : z.Plain) (hargs : WriteArgs eType iAmt iOfst) :
    (fsWrite eType z f carriedOut zBuf iAmt iOfst).2.1 = z ↔
      iOfst + iAmt ≤ fsFileSize eType z ∨ z.Refuses iAmt iOfst eType := by
  have hofst := hargs.ofst
  have hamt := hargs.amt
  obtain ⟨hdLo, hdHi⟩ := hz.nDatabase
  obtain ⟨hjLo, hjHi⟩ := hz.nJournal
  cases eType with
  | database =>
      by_cases hroom : z.Refuses iAmt iOfst .database
      · simp only [fsWrite_database_full hroom, hroom, or_true]
      · have hend := (int32_range (z.nBlob - z.nJournal)).2
        have hfit : ¬int32 (z.nBlob - z.nJournal) < iAmt + iOfst + BLOCKSIZE := hroom
        have hmax : int32 (max z.nDatabase (iAmt + iOfst)) = max z.nDatabase (iAmt + iOfst) :=
          int32_of_bounds (by omega) (by simp only [BLOCKSIZE] at hfit; omega)
        rw [fsWrite_database_sizes hargs hroom, hmax]
        simp only [hroom, or_false, fsFileSize, if_true, Sizes.set_nDatabase_eq]
        omega
  | journal =>
      have hlast : iAmt + iOfst < 2147483648 - 1024 := hargs.last
      have hmax : int32 (max z.nJournal (iAmt + iOfst)) = max z.nJournal (iAmt + iOfst) :=
        int32_of_bounds (by omega) (by omega)
      rw [fsWrite_journal_eq _ _ _ _ hargs.journalRange, hmax]
      have hiff := journal_ok_iff_not_refuses hz hargs f zBuf
      by_cases hok : (writeChunks z f carriedOut zBuf iAmt 0 iOfst).1 = .ok
      · simp only [hok, if_true, hiff.mp hok, or_false, fsFileSize, reduceCtorEq, if_false,
          Sizes.set_nJournal_eq]
        omega
      · simp only [hok, if_false, not_not.mp (mt hiff.mpr hok), or_true]

/-- A truncation keeps the account exactly when it does not cut the region. -/
theorem fsTruncate_keeps_iff (hz : z.Plain) (hsize : 0 ≤ size) :
    fsTruncate eType z size = z ↔ fsFileSize eType z ≤ size := by
  obtain ⟨hdLo, hdHi⟩ := hz.nDatabase
  obtain ⟨hjLo, hjHi⟩ := hz.nJournal
  cases eType with
  | database =>
      have hmin : int32 (min z.nDatabase size) = min z.nDatabase size :=
        int32_of_bounds (by omega) (by omega)
      simp only [fsTruncate, fsFileSize, if_true, hmin, Sizes.set_nDatabase_eq]
      omega
  | journal =>
      have hmin : int32 (min z.nJournal size) = min z.nJournal size :=
        int32_of_bounds (by omega) (by omega)
      simp only [fsTruncate, fsFileSize, reduceCtorEq, if_false, hmin, Sizes.set_nJournal_eq]
      omega

end

/-! ## The two accounts over a run -/

namespace RegisteredCall

/-- The ranges and sizes that SQLite passes. -/
def InRange : RegisteredCall → Prop
  | .xOpen .. => True
  | .xWrite eType _ iAmt iOfst => WriteArgs eType iAmt iOfst
  | .xTruncate _ size => 0 ≤ size

/-- The memory, the handle and the device do what an open asks of them. -/
def Ideal : RegisteredCall → Prop
  | .xOpen _ _ malloc handle io => malloc = true ∧ 0 ≤ handle ∧ ∀ n, (io n).Ideal
  | _ => True

end RegisteredCall

namespace Registered

/-- The space checks of both handles use the same sizes. -/
def Agree (s : Registered) : Prop :=
  ∀ eType z z', s.account eType = some z → s.account eType.other = some z' →
    z.nDatabase = z'.nDatabase ∧ z.nJournal = z'.nJournal

/-- No write that is accepted now lands on live bytes of the other handle's file. -/
def Separate (s : Registered) : Prop :=
  ∀ eType zBuf iAmt iOfst t, WriteArgs eType iAmt iOfst →
    s.step (.xWrite eType zBuf iAmt iOfst) = some (t, .ok) →
    ∀ z, s.account eType.other = some z → ∀ x, 0 ≤ x → x < fsFileSize eType.other z →
      t.drive.file.byte (eType.other.addr z.nBlob x) =
        s.drive.file.byte (eType.other.addr z.nBlob x)

/-- What a call must be like, while both handles are open, for their records to
stay equal: an open finds on the drive what the other record holds, a write
ends inside the region or is refused, a truncation cuts nothing off. -/
def KeepsAccount (s : Registered) : RegisteredCall → Prop
  | .xOpen _ flags _ _ _ => ∀ z, s.account (openType flags).other = some z →
    z = recordedSizes s.drive.file ∧ z.nDatabase + BLOCKSIZE < 2147483648
  | .xWrite eType _ iAmt iOfst => ∀ z z', s.account eType = some z →
    s.account eType.other = some z' →
    iOfst + iAmt ≤ fsFileSize eType z ∨ z.Refuses iAmt iOfst eType
  | .xTruncate eType size => ∀ z z', s.account eType = some z →
    s.account eType.other = some z' → fsFileSize eType z ≤ size

def Plain (s : Registered) : Prop := ∀ eType z, s.account eType = some z → z.Plain

/-- Both records are as an open left them, and equal. -/
def Matched (account : EType → Option Sizes) : Prop :=
  ∀ eType z z', account eType = some z → account eType.other = some z' →
    z' = z ∧ (z.nJournal = 0 ∨ z.nJournal = BLOBSIZE) ∧ z.nDatabase + BLOCKSIZE < 2147483648

/-- Every pair of open handles has the one whose record was set. -/
theorem matched_update {account : EType → Option Sizes} {eType : EType} {z : Sizes}
    (hz : ∀ z', account eType.other = some z' →
      z' = z ∧ (z.nJournal = 0 ∨ z.nJournal = BLOBSIZE) ∧
        z.nDatabase + BLOCKSIZE < 2147483648) :
    Matched (Function.update account eType (some z)) := by
  intro e z₁ z₂ h₁ h₂
  rcases e.eq_or_eq_other eType with rfl | hother
  · rw [Function.update_self] at h₁
    rw [Function.update_of_ne e.other_ne] at h₂
    cases h₁
    exact hz z₂ h₂
  · have he : e = eType.other := by
      cases e with
      | database => cases hother; rfl
      | journal => cases hother; rfl
    rw [hother, Function.update_self] at h₂
    rw [Function.update_of_ne (he ▸ eType.other_ne)] at h₁
    cases h₂
    obtain ⟨rfl, hrest⟩ := hz z₁ (he ▸ h₁)
    exact ⟨rfl, hrest⟩

variable {s t : Registered} {c : RegisteredCall} {rc : Rc}

theorem recordedSizes_plain (f : ParentFile) : (recordedSizes f).Plain := by
  refine ⟨rfl, int32_range _, ?_⟩
  simp only [recordedSizes, recordedSize]
  split_ifs
  · decide
  · decide

theorem Plain.step (hs : s.Plain) (hcall : c.InRange) (hstep : s.step c = some (t, rc)) :
    t.Plain := by
  have hupdate : ∀ e z, z.Plain → t.account = Function.update s.account e (some z) → t.Plain := by
    intro e z hz ht e' z' hz'
    rw [ht] at hz'
    by_cases he : e' = e
    · rw [he, Function.update_self] at hz'
      cases hz'
      exact hz
    · rw [Function.update_of_ne he] at hz'
      exact hs e' z' hz'
  cases c with
  | xOpen zName flags malloc handle io =>
      obtain ⟨-, ⟨-, ht⟩ | ⟨-, ht⟩⟩ := step_open hstep
      · exact hupdate _ _ (recordedSizes_plain _) ht
      · intro e z hz
        rw [ht] at hz
        exact hs e z hz
  | xWrite eType zBuf iAmt iOfst =>
      obtain ⟨z, hz, ht, -, -⟩ := step_write hstep
      refine hupdate _ _ ?_ ht
      have hplain := hs eType z hz
      unfold fsWrite
      simp only
      split_ifs
      · exact hplain
      · exact ⟨hplain.nBlob_eq, int32_range _, hplain.nJournal⟩
      · exact hplain
      · exact ⟨hplain.nBlob_eq, hplain.nDatabase, int32_range _⟩
      · exact hplain
  | xTruncate eType size =>
      obtain ⟨z, hz, ht⟩ := step_truncate hstep
      refine hupdate _ _ ?_ ht
      have hplain := hs eType z hz
      unfold fsTruncate
      split_ifs
      · exact ⟨hplain.nBlob_eq, int32_range _, hplain.nJournal⟩
      · exact ⟨hplain.nBlob_eq, hplain.nDatabase, int32_range _⟩

theorem Matched.step (hm : Matched s.account) (hs : s.Plain) (hcall : c.InRange)
    (hstep : s.step c = some (t, rc)) (hkeeps : s.KeepsAccount c) : Matched t.account := by
  cases c with
  | xOpen zName flags malloc handle io =>
      obtain ⟨-, ⟨-, ht⟩ | ⟨-, ht⟩⟩ := step_open hstep
      · rw [ht]
        apply matched_update
        intro z' hz'
        obtain ⟨hrecorded, hfits⟩ := hkeeps z' hz'
        refine ⟨hrecorded, ?_, hrecorded ▸ hfits⟩
        simp only [recordedSizes, recordedSize]
        split_ifs
        · exact Or.inr rfl
        · exact Or.inl rfl
      · rw [ht]
        exact hm
  | xWrite eType zBuf iAmt iOfst =>
      obtain ⟨z, hz, ht, -, -⟩ := step_write hstep
      rw [ht]
      apply matched_update
      intro z' hz'
      rw [(fsWrite_keeps_iff (hs eType z hz) hcall).mpr (hkeeps z z' hz hz')]
      exact hm eType z z' hz hz'
  | xTruncate eType size =>
      obtain ⟨z, hz, ht⟩ := step_truncate hstep
      rw [ht]
      apply matched_update
      intro z' hz'
      rw [(fsTruncate_keeps_iff (hs eType z hz) hcall).mpr (hkeeps z z' hz hz')]
      exact hm eType z z' hz hz'

theorem Matched.agree (hm : Matched s.account) : s.Agree := by
  intro eType z z' hz hz'
  obtain ⟨rfl, -⟩ := hm eType z z' hz hz'
  exact ⟨rfl, rfl⟩

/-- Equal records keep the regions apart. -/
theorem Matched.separate (hm : Matched s.account) (hs : s.Plain) : s.Separate := by
  intro eType zBuf iAmt iOfst t hargs hstep z' hz' x hx hxLt
  obtain ⟨z, hz, -, hfile, hrc⟩ := step_write hstep
  obtain ⟨rfl, hjournal, hfits⟩ := hm eType z z' hz hz'
  rw [hfile]
  have hofst := hargs.ofst
  have hamt := hargs.amt
  cases eType with
  | database =>
      -- the journal is empty, or as large as the blob and then nothing is accepted
      change x < z'.nJournal at hxLt
      have hfull : z'.Refuses iAmt iOfst .database := by
        have hnBlob := (hs _ z' hz).nBlob_eq
        rcases hjournal with hzero | hall
        · omega
        · simp only [Sizes.Refuses, hnBlob, hall, sub_self, int32, BLOCKSIZE]
          omega
      rw [fsWrite_database_full hfull] at hrc
      cases hrc
  | journal =>
      change x < z'.nDatabase at hxLt
      rw [fsWrite_journal_eq _ _ _ _ hargs.journalRange, apply_ite Prod.snd, apply_ite Prod.snd,
        ite_self]
      apply writeChunks_below
      rw [int32_of_bounds (by simp only [BLOCKSIZE]; omega) hfits]
      simp only [EType.other, EType.addr, databaseAddr]
      omega

/-- With a database size whose sum with `BLOCKSIZE` overflows, the floor of the
journal loop is negative and a journal page is stored over the first database page. -/
theorem writeChunks_overflow {z : Sizes} (hz : z.Plain)
    (hover : 2147483648 ≤ z.nDatabase + BLOCKSIZE) (f : ParentFile) (zBuf : Bytes) :
    writeChunks z f carriedOut zBuf 512 0 (BLOBSIZE - 1024) =
      (.ok, f.put (fun k => zBuf (0 + k)) 512 512) := by
  have hoff : realOff z.nBlob (BLOBSIZE - 1024) = 512 := by
    rw [hz.nBlob_eq]
    decide
  have hamt : realAmt 512 512 = 512 := by decide
  have hhi := hz.nDatabase.2
  have hfloor : ¬(512 : Int) < int32 (z.nDatabase + BLOCKSIZE) := by
    simp only [int32, BLOCKSIZE] at *
    omega
  have hput : f.xWrite (carriedOut 0) (fun k => zBuf (0 + k)) 512 512 =
      (.ok, f.put (fun k => zBuf (0 + k)) 512 512) := ParentFile.xWrite_done (by decide)
  rw [writeChunks, if_pos (by decide)]
  simp only [hoff, hamt, hfloor, if_false, hput, if_true, sub_self]
  exact writeChunks_done

theorem Separate.fits (hsep : s.Separate) (hs : s.Plain) {z z' : Sizes}
    (hz : s.account .database = some z) (hz' : s.account .journal = some z')
    (heq : z.nDatabase = z'.nDatabase) : z.nDatabase + BLOCKSIZE < 2147483648 := by
  by_contra hnot
  have hover : 2147483648 ≤ z'.nDatabase + BLOCKSIZE := by omega
  have hargs : WriteArgs .journal 512 (BLOBSIZE - 1024) := ⟨by decide, by decide, by decide⟩
  let zBuf : Bytes := fun _ => s.drive.file.byte 512 + 1
  have hwrite : fsWrite .journal z' s.drive.file carriedOut zBuf 512 (BLOBSIZE - 1024) =
      (.ok, { z' with nJournal := int32 (max z'.nJournal (512 + (BLOBSIZE - 1024))) },
        s.drive.file.put (fun k => zBuf (0 + k)) 512 512) := by
    rw [fsWrite_journal_eq _ _ _ _ hargs.journalRange]
    simp only [writeChunks_overflow (hs _ z' hz') hover, if_true]
  obtain ⟨h, hopened, rfl⟩ := Option.map_eq_some_iff.mp hz'
  have hstep : s.step (.xWrite .journal zBuf 512 (BLOBSIZE - 1024)) =
      some (⟨{ s.drive with file := s.drive.file.put (fun k => zBuf (0 + k)) 512 512 },
        Function.update s.opened .journal (some (h.setSizes { h.sizes with
          nJournal := int32 (max h.sizes.nJournal (512 + (BLOBSIZE - 1024))) }))⟩, .ok) := by
    simp only [step, hopened, Option.map_some, h.etype_eq, hwrite]
  have hkept := hsep .journal zBuf 512 (BLOBSIZE - 1024) _ hargs hstep z hz 0 (le_refl 0)
    (by simp only [EType.other, fsFileSize, if_true, BLOCKSIZE] at *; omega)
  change (s.drive.file.put _ 512 512).byte 512 = s.drive.file.byte 512 at hkept
  rw [ParentFile.put_inside (by decide) (by decide)] at hkept
  exact absurd hkept (by simp [zBuf])

theorem Plain.eq_of_agree (hs : s.Plain) (hagree : s.Agree) (eType : EType) {z z' : Sizes}
    (hz : s.account eType = some z) (hz' : s.account eType.other = some z') : z = z' := by
  have hb := (hs _ z hz).nBlob_eq
  have hb' := (hs _ z' hz').nBlob_eq
  obtain ⟨hd, hj⟩ := hagree eType z z' hz hz'
  obtain ⟨d, j, b⟩ := z
  obtain ⟨d', j', b'⟩ := z'
  simp only at hb hb' hd hj
  rw [hb, hb', hd, hj]

theorem Plain.other_eq (htPlain : t.Plain) (ht : t.Agree) {eType : EType} {z z' : Sizes}
    (heq : t.account = Function.update s.account eType (some z))
    (hz' : s.account eType.other = some z') : z = z' := by
  refine htPlain.eq_of_agree ht eType ?_ ?_
  · rw [heq, Function.update_self]
  · rw [heq, Function.update_of_ne eType.other_ne, hz']

/-- Only a call that meets the condition leads from a good state to a good one. -/
theorem keepsAccount_of_good (hs : s.Plain) (hagree : s.Agree) (hcall : c.InRange)
    (hideal : c.Ideal) (hstep : s.step c = some (t, rc)) (ht : t.Agree) (hsep : t.Separate) :
    s.KeepsAccount c := by
  have htPlain := hs.step hcall hstep
  cases c with
  | xOpen zName flags malloc handle io =>
      intro z hz
      obtain ⟨hmalloc, hhandle, hio⟩ := hideal
      obtain ⟨hrc, ⟨-, heq⟩ | ⟨hfail, -⟩⟩ := step_open hstep
      · have hrecorded := (htPlain.other_eq ht heq hz).symm
        refine ⟨hrecorded, ?_⟩
        have hfound : t.account (openType flags) = some z := by
          rw [heq, Function.update_self, hrecorded]
        have hother : t.account (openType flags).other = some z := by
          rw [heq, Function.update_of_ne (EType.other_ne _), hz]
        cases htype : openType flags with
        | database =>
            rw [htype] at hfound hother
            exact hsep.fits htPlain hfound hother rfl
        | journal =>
            rw [htype] at hfound hother
            exact hsep.fits htPlain hother hfound rfl
      · exact absurd (hrc.trans (fs_open_ideal hmalloc hhandle hio)) hfail
  | xWrite eType zBuf iAmt iOfst =>
      intro z z' hz hz'
      obtain ⟨z₁, hz₁, heq, -, -⟩ := step_write hstep
      obtain rfl := Option.some.inj (hz.symm.trans hz₁)
      apply (fsWrite_keeps_iff (hs eType z hz) hcall).mp
      exact (htPlain.other_eq ht heq hz').trans (hs.eq_of_agree hagree _ hz hz').symm
  | xTruncate eType size =>
      intro z z' hz hz'
      obtain ⟨z₁, hz₁, heq⟩ := step_truncate hstep
      obtain rfl := Option.some.inj (hz.symm.trans hz₁)
      apply (fsTruncate_keeps_iff (hs eType z hz) hcall).mp
      exact (htPlain.other_eq ht heq hz').trans (hs.eq_of_agree hagree _ hz hz').symm

/-- In a run all of whose calls keep the account, the records agree and the
regions are apart after every step, and on an ideal device in no other run. -/
theorem one_account {d : Drive} {calls : List RegisteredCall} {t : Registered}
    (hrun : Run next (fun _ c => c.InRange) (start d) calls t) :
    (Along next KeepsAccount (start d) calls →
        Throughout next (fun s => s.Agree ∧ s.Separate) (start d) calls) ∧
      ((∀ c ∈ calls, c.Ideal) →
        Throughout next (fun s => s.Agree ∧ s.Separate) (start d) calls →
        Along next KeepsAccount (start d) calls) := by
  have hstart : (start d).Plain := nofun
  have hkeep : ∀ (s : Registered) (c : RegisteredCall) t,
      s.Plain → c.InRange → s.next c = some t → t.Plain := by
    intro s c t hs hcall hnext
    obtain ⟨rc, hstep⟩ := next_eq_some.mp hnext
    exact hs.step hcall hstep
  constructor
  · intro halong
    have hmatched : Throughout next (fun s => s.Plain ∧ Matched s.account) (start d) calls := by
      apply Along.throughout hkeep ?_ hrun hstart ⟨hstart, nofun⟩ halong
      rintro s c t hs ⟨-, hm⟩ hcall hnext hkeeps
      obtain ⟨rc, hstep⟩ := next_eq_some.mp hnext
      exact ⟨hs.step hcall hstep, hm.step hs hcall hstep hkeeps⟩
    exact hmatched.mono fun s hs => ⟨hs.2.agree, hs.2.separate hs.1⟩
  · intro hideal
    apply Throughout.along (fun s c t hs hcall => hkeep s c t hs hcall.1) ?_
      (hrun.restrict hideal) hstart
    rintro s c t hs ⟨hagree, -⟩ ⟨hcall, hc⟩ hnext ⟨ht, hsep⟩
    obtain ⟨rc, hstep⟩ := next_eq_some.mp hnext
    exact keepsAccount_of_good hs hagree hcall hc hstep ht hsep

/-- The database `"db"` and then its journal are opened on an ideal device. -/
def openDatabase : RegisteredCall :=
  .xOpen [100, 98] SQLITE_OPEN_MAIN_DB true 3 fun _ => ⟨true, 4294967296⟩

def openJournal : RegisteredCall :=
  .xOpen ([100, 98] ++ journalSuffix) 0 true 4 fun _ => ⟨true, 4294967296⟩

theorem one_account_overwrite :
    Throughout next (fun s => s.Agree ∧ s.Separate) (start (recordedDrive 1024))
      [openDatabase, openJournal, .xWrite .database (fun _ => 7) 512 512] := by
  have hrun : Run next (fun _ c => c.InRange) (start (recordedDrive 1024))
      [openDatabase, openJournal, .xWrite .database (fun _ => 7) 512 512]
      (after next (start (recordedDrive 1024))
        [openDatabase, openJournal, .xWrite .database (fun _ => 7) 512 512]) := by
    refine Run.of_after (fun c hc _ => ?_) (by decide +kernel)
    fin_cases hc
    · trivial
    · trivial
    · exact ⟨by decide, by decide, by decide⟩
  apply (one_account hrun).1
  apply Along.cons_after (by decide +kernel)
  · exact nofun
  apply Along.cons_after (by decide +kernel)
  · intro z hz
    have haccount : (after next (start (recordedDrive 1024)) [openDatabase]).account .database =
        some ⟨1024, 0, BLOBSIZE⟩ := by decide +kernel
    obtain rfl := Option.some.inj (haccount.symm.trans hz)
    decide +kernel
  apply Along.cons_after (by decide +kernel)
  · intro z z' hz _
    have haccount : (after next (after next (start (recordedDrive 1024)) [openDatabase])
        [openJournal]).account .database = some ⟨1024, 0, BLOBSIZE⟩ := by decide +kernel
    obtain rfl := Option.some.inj (haccount.symm.trans hz)
    exact Or.inl (by decide)
  · trivial

def firstPageCalls : List RegisteredCall :=
  [openDatabase, openJournal, .xWrite .database (fun _ => 7) 512 0]

/-- After the first page of a new database the journal handle still takes the
database for empty, and stores a journal page over it. -/
theorem journal_lands_on_database :
    let s := after next (start (recordedDrive 0)) firstPageCalls
    Run next (fun _ c => c.InRange) (start (recordedDrive 0)) firstPageCalls s ∧
      s.account .database = some ⟨512, 0, BLOBSIZE⟩ ∧
      s.account .journal = some ⟨0, 0, BLOBSIZE⟩ ∧
      ∃ t, s.step (.xWrite .journal (fun _ => 9) 512 (BLOBSIZE - 1024)) = some (t, .ok) ∧
        s.drive.file.byte (databaseAddr 0) = 7 ∧ t.drive.file.byte (databaseAddr 0) = 9 := by
  intro s
  refine ⟨Run.of_after (fun c hc _ => ?_) (by decide +kernel), by decide +kernel,
    by decide +kernel, ?_⟩
  · fin_cases hc
    · trivial
    · trivial
    · exact ⟨by decide, by decide, by decide⟩
  · let out := (s.step (.xWrite .journal (fun _ => 9) 512 (BLOBSIZE - 1024))).getD (s, .full)
    have hrc : (s.step (.xWrite .journal (fun _ => 9) 512 (BLOBSIZE - 1024))).map (·.2) =
        some .ok := by decide +kernel
    obtain ⟨⟨t, rc⟩, hstep, rfl⟩ := Option.map_eq_some_iff.mp hrc
    have hout : out = (t, .ok) := by simp only [out, hstep, Option.getD_some]
    refine ⟨t, hstep, by decide +kernel, ?_⟩
    have hbyte : out.1.drive.file.byte (databaseAddr 0) = 9 := by decide +kernel
    rwa [hout] at hbyte

end Registered

end SqliteFs
