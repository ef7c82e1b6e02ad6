import SqliteFs.RealFile

/-!
The methods of the VFS that search the list of open files: `fsOpen`,
`fsClose`, `fsDelete` and `fsAccess`. A record is known by its address. The
list from `pFileList` along `pNext` is a list of addresses, the most recently
opened file first.
-/

namespace SqliteFs

/-- The eight bytes of `"-journal"`. -/
def journalSuffix : Name := ['-', 'j', 'o', 'u', 'r', 'n', 'a', 'l'].map Char.toUInt8

def SQLITE_OPEN_MAIN_DB : Nat := 0x00000100

def SQLITE_ACCESS_EXISTS : Int := 0

/-- An `int` passed as a `size_t`. -/
def sizeT (n : Int) : Nat := if n < 0 then (n + 18446744073709551616).toNat else n.toNat

@[simp] theorem sizeT_natCast (n : Nat) : sizeT n = n := by
  simp [sizeT]

/-- `strncmp` of the C library. Only its sign is specified. -/
def strncmp : Name → Name → Nat → Int
  | _, _, 0 => 0
  | [], [], _ + 1 => 0
  | [], _ :: _, _ + 1 => -1
  | _ :: _, [], _ + 1 => 1
  | a :: as, b :: bs, n + 1 => if a = b then strncmp as bs n else if a < b then -1 else 1

theorem strncmp_eq_zero_iff (a b : Name) (n : Nat) :
    strncmp a b n = 0 ↔ a.take n = b.take n := by
  induction n generalizing a b with
  | zero => simp [strncmp]
  | succ n ih =>
      cases a with
      | nil => cases b <;> simp [strncmp]
      | cons x xs =>
          cases b with
          | nil => simp [strncmp]
          | cons y ys =>
              simp only [strncmp, List.take_succ_cons, List.cons.injEq]
              by_cases hxy : x = y
              · rw [if_pos hxy, ih xs ys]
                simp [hxy]
              · rw [if_neg hxy]
                split_ifs <;> simp [hxy]

/-- `fs_vfs_t`: the list of open files and the records in memory. -/
structure FsVfs where
  pFileList : List Nat
  real : Nat → FsRealFile

/-- `fs_file`. `pMethods` says whether `base.pMethods` is set. -/
structure FsFile where
  pMethods : Bool
  eType : EType
  pReal : Nat
  deriving DecidableEq

/-- The parent's files. -/
abbrev Disk := Name → ParentFile

namespace FsVfs

def init : FsVfs := ⟨[], fun _ => ⟨⟨0, 0, 0⟩, [], 0⟩⟩

/-- `sqlite3_malloc` gives memory that no record in use occupies. -/
def sqlite3Malloc (v : FsVfs) : Nat := v.pFileList.foldr max 0 + 1

theorem le_foldr_max {a : Nat} {l : List Nat} (h : a ∈ l) : a ≤ l.foldr max 0 := by
  induction l with
  | nil => cases h
  | cons b l ih =>
      rcases List.mem_cons.mp h with rfl | htail
      · exact le_max_left _ _
      · exact le_trans (ih htail) (le_max_right _ _)

theorem sqlite3Malloc_fresh (v : FsVfs) : v.sqlite3Malloc ∉ v.pFileList := by
  intro h
  have hle := le_foldr_max h
  unfold sqlite3Malloc at hle
  omega

/-- The search loop of `fsOpen`, `fsDelete` and `fsAccess`: the first record
whose name agrees with `zName` in the first `nName` bytes. -/
def findReal (v : FsVfs) (zName : Name) (nName : Int) : Option Nat :=
  v.pFileList.find? fun a =>
    decide (strncmp (v.real a).zName zName (sizeT nName) = 0)

def setSizes (v : FsVfs) (a : Nat) (z : Sizes) : FsVfs :=
  { v with real := Function.update v.real a { v.real a with toSizes := z } }

def setRef (v : FsVfs) (a : Nat) (nRef : Int) : FsVfs :=
  { v with real := Function.update v.real a { v.real a with nRef := nRef } }

end FsVfs

/-- `eType` of a file opened with these flags. -/
def openType (flags : Nat) : EType :=
  if flags &&& SQLITE_OPEN_MAIN_DB ≠ 0 then .database else .journal

/-- `nName` of `fsOpen`: the length of the database's name in `zName`. Path
names are at most `mxPathname` long, so their lengths are `int`s. -/
def nameLength (zName : Name) (eType : EType) : Int :=
  zName.length - if eType = .journal then 8 else 0

/-- What `fsOpen` leaves behind. -/
structure Opened where
  rc : Rc
  vfs : FsVfs
  disk : Disk
  file : FsFile

/-- Open an fs file handle. `none` is the failed assertion that a journal is
opened while its database is. `malloc` says whether the allocation succeeds. -/
def fsOpen (v : FsVfs) (disk : Disk) (p : FsFile) (zName : Name) (flags : Nat)
    (malloc : Bool) (io : Outcomes) : Option Opened :=
  let eType := openType flags
  let p := { p with pMethods := true, eType := eType }
  match v.findReal zName (nameLength zName eType) with
  | some a =>
    some ⟨.ok, v.setRef a ((v.real a).nRef + 1), disk, { p with pReal := a }⟩
  | none =>
    if eType ≠ .database then none
    else if malloc = false then some ⟨.nomem, v, disk, p⟩
    else
      let out := openReal (disk zName) io
      let disk := Function.update disk zName out.2.2
      if out.1 = .ok then
        let a := v.sqlite3Malloc
        let pReal : FsRealFile := ⟨out.2.1, zName, 1⟩
        some ⟨.ok, ⟨a :: v.pFileList, Function.update v.real a pReal⟩, disk,
          { p with pReal := a }⟩
      else some ⟨out.1, v, disk, p⟩

/-- Close an fs-file. `none` is the failed assertion on the reference count. -/
def fsClose (v : FsVfs) (p : FsFile) (io : Outcomes) : Option (Rc × FsVfs) :=
  let nRef := (v.real p.pReal).nRef - 1
  let v := v.setRef p.pReal nRef
  if nRef < 0 then none
  else if nRef = 0 then
    some ((io 0).rc, { v with pFileList := v.pFileList.erase p.pReal })
  else some (.ok, v)

/-- Delete the file located at `zPath`, which has to be a journal. -/
def fsDelete (v : FsVfs) (disk : Disk) (zPath : Name) (io : Outcomes) :
    Option (Rc × FsVfs × Disk) :=
  let nName : Int := zPath.length - 8
  if 0 ≤ nName ∧ zPath.drop nName.toNat = journalSuffix then
    match v.findReal zPath nName with
    | some a =>
      let pReal := v.real a
      let out := deleteReal pReal.toSizes (disk pReal.zName) io
      some (out.1, v.setSizes a out.2.1, Function.update disk pReal.zName out.2.2)
    | none => some (.ok, v, disk)
  else none

/-- Test for access permissions. Every question but that for existence goes to
the parent, whose answer is `parent`. -/
def fsAccess (v : FsVfs) (zPath : Name) (flags : Int) (parent : Rc × Int) : Rc × Int :=
  if flags ≠ SQLITE_ACCESS_EXISTS then parent
  else
    let isJournal := zPath.length > 8 ∧ zPath.drop (zPath.length - 8) = journalSuffix
    let nName : Int := if isJournal then zPath.length - 8 else zPath.length
    match v.findReal zPath nName with
    | some a => (.ok, if ¬isJournal ∨ (v.real a).nJournal > 0 then 1 else 0)
    | none => (.ok, 0)

end SqliteFs
