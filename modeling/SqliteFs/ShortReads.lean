import SqliteFs.Chunks
import SqliteFs.Session

/-!
Reads past the end of a file. The contract of `xRead` wants the bytes that
exist and zeros behind them. `fsRead` tests for the end before it reads, and
then returns `SQLITE_IOERR_SHORT_READ` with the buffer as it came in.
-/

namespace SqliteFs

open Lib

/-- The first `len` bytes of two buffers are the same. -/
def AgreeOn (len : Int) (b b' : Bytes) : Prop := ∀ k, 0 ≤ k → k < len → b k = b' k

theorem AgreeOn.refl (len : Int) (b : Bytes) : AgreeOn len b b := fun _ _ _ => rfl

/-- A range that SQLite reads and that ends past the end of a file of `size` bytes. -/
structure PastEnd (size iAmt iOfst : Int) : Prop where
  ofst : 0 ≤ iOfst
  amt : 0 < iAmt
  last : iOfst + iAmt < 4611686018427387904
  past : size < iOfst + iAmt

/-- Such a read leaves the buffer alone. -/
theorem fsRead_pastEnd {eType : EType} {z : Sizes} {iAmt iOfst : Int}
    (hargs : PastEnd (fsFileSize eType z) iAmt iOfst) (f : ParentFile) (io : Outcomes)
    (zBuf : Bytes) : fsRead eType z f io zBuf iAmt iOfst = (.ioerrShortRead, zBuf) := by
  have hpast := hargs.past
  rw [add_comm] at hpast
  unfold fsRead
  apply if_pos
  cases eType with
  | database => exact Or.inl ⟨rfl, hpast⟩
  | journal => exact Or.inr ⟨rfl, hpast⟩

namespace Sys

/-- What the contract of `xRead` wants in the buffer: the bytes of the handle's
file from `iOfst` up to its end, then zeros. -/
def contents (s : Sys) (h : Handle) (iOfst : Int) : Bytes := fun k =>
  if iOfst + k < fsFileSize h.file.eType (s.pReal h).toSizes then
    (s.pFile h).byte (h.file.eType.addr (s.pReal h).nBlob (iOfst + k))
  else 0

end Sys

/-- In every state a read past the end delivers the file's bytes and zeros
exactly when the buffer held them already, and two such reads deliver the same
exactly when their buffers were the same. -/
theorem short_read_iff {s : Sys} {id : Nat} {h : Handle} (hh : s.handle id = some h)
    {iAmt iOfst : Int} (hargs : PastEnd (fsFileSize h.file.eType (s.pReal h).toSizes) iAmt iOfst) :
    ∀ zBuf io, ∃ r, s.step (.xRead id zBuf iAmt iOfst io) = some (s, r) ∧
      r.rc = .ioerrShortRead ∧
      (AgreeOn iAmt r.zBuf (s.contents h iOfst) ↔ AgreeOn iAmt zBuf (s.contents h iOfst)) ∧
      ∀ zBuf' io' r', s.step (.xRead id zBuf' iAmt iOfst io') = some (s, r') →
        (AgreeOn iAmt r.zBuf r'.zBuf ↔ AgreeOn iAmt zBuf zBuf') := by
  have hread : ∀ zBuf io, s.step (.xRead id zBuf iAmt iOfst io) =
      some (s, ⟨.ioerrShortRead, zBuf, 0⟩) := by
    intro zBuf io
    simp only [Sys.step, hh, Option.map_some, fsRead_pastEnd hargs]
  intro zBuf io
  refine ⟨_, hread zBuf io, rfl, Iff.rfl, ?_⟩
  intro zBuf' io' r' hstep
  rw [hread zBuf' io'] at hstep
  obtain ⟨-, rfl⟩ := Prod.ext_iff.mp (Option.some.inj hstep)
  exact Iff.rfl

/-- The database `"db"` with one page of sevens. -/
def onePage : List Call :=
  [.xOpen 0 [100, 98] SQLITE_OPEN_MAIN_DB true carriedOut,
    .xWrite 0 (fun _ => 7) 512 0 carriedOut]

def onePageState : Sys := after Sys.next (Sys.start fun _ => .blank) onePage

def onePageHandle : Handle := ⟨0, [100, 98], ⟨true, .database, 1⟩⟩

theorem onePageState_run :
    Run Sys.next (fun _ _ => True) (Sys.start fun _ => .blank) onePage onePageState :=
  Run.of_after (fun _ _ _ => trivial) (by decide +kernel)

theorem onePageState_handle : onePageState.handle 0 = some onePageHandle := by decide +kernel

/-- A read of two pages. -/
theorem twoPages_pastEnd :
    PastEnd (fsFileSize onePageHandle.file.eType (onePageState.pReal onePageHandle).toSizes)
      1024 0 :=
  ⟨by decide, by decide, by decide, by decide +kernel⟩

theorem short_read_iff_right_buffer : ∃ r,
    onePageState.step (.xRead 0 (onePageState.contents onePageHandle 0) 1024 0 carriedOut) =
      some (onePageState, r) ∧
    AgreeOn 1024 r.zBuf (onePageState.contents onePageHandle 0) := by
  obtain ⟨r, hstep, -, hiff, -⟩ := short_read_iff onePageState_handle twoPages_pastEnd
    (onePageState.contents onePageHandle 0) carriedOut
  exact ⟨r, hstep, hiff.mpr (AgreeOn.refl _ _)⟩

/-- Neither the page that exists nor the zeros behind it arrive in a buffer of nines. -/
theorem short_read_stale :
    Run Sys.next (fun _ _ => True) (Sys.start fun _ => .blank) onePage onePageState ∧
      PastEnd (onePageState.pReal onePageHandle).nDatabase 1024 0 ∧
      ∃ r, onePageState.step (.xRead 0 (fun _ => 9) 1024 0 carriedOut) = some (onePageState, r) ∧
        r.rc = .ioerrShortRead ∧ onePageState.contents onePageHandle 0 0 = 7 ∧ r.zBuf 0 = 9 ∧
        onePageState.contents onePageHandle 0 512 = 0 ∧ r.zBuf 512 = 9 := by
  refine ⟨onePageState_run, twoPages_pastEnd, ?_⟩
  have hread : fsRead .database (onePageState.pReal onePageHandle).toSizes
      (onePageState.pFile onePageHandle) carriedOut (fun _ => 9) 1024 0 =
      (.ioerrShortRead, fun _ => 9) := fsRead_pastEnd twoPages_pastEnd _ _ _
  refine ⟨⟨.ioerrShortRead, fun _ => 9, 0⟩, ?_, rfl, ?_, rfl, ?_, rfl⟩
  · have htype : onePageHandle.file.eType = .database := rfl
    simp only [Sys.step, onePageState_handle, Option.map_some, htype, hread]
  · decide +kernel
  · decide +kernel

end SqliteFs
