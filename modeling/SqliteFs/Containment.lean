import SqliteFs.Regions

/-!
What a write leaves behind that does not return `SQLITE_OK`. The space check of
the database side refuses before anything is written. The loop of the journal
side and a parent write that fails can stop in the middle, and have then changed
bytes of the requested range only. The sizes are set last.
-/

namespace SqliteFs

open Lib

/-- What the database side and the journal side leave of the medium and of the
record when a write of `iAmt` bytes at `iOfst` is not accepted. -/
structure Contained (eType : EType) (z : Sizes) (f : ParentFile) (io : Outcomes)
    (iAmt iOfst : Int) (out : Rc × Sizes × ParentFile) : Prop where
  sizes : out.2.1 = z
  block0 : ∀ x, x < BLOCKSIZE → out.2.2.byte x = f.byte x
  database : ∀ x, 0 ≤ x → x < z.nDatabase →
    (eType = .database → x < iOfst ∨ iOfst + iAmt ≤ x) →
    out.2.2.byte (databaseAddr x) = f.byte (databaseAddr x)
  outside : ∀ x, (∀ j, iOfst ≤ j → j < iOfst + iAmt → x ≠ eType.addr z.nBlob j) →
    out.2.2.byte x = f.byte x
  refused : eType = .database → out.1 = .full → out.2.2 = f ∨
    (iOfst + iAmt + BLOCKSIZE ≤ z.nBlob - z.nJournal ∧
      ∃ failure, io 0 = .fails failure ∧ failure.rc = .full)

variable {z : Sizes} {f : ParentFile} {io : Outcomes} {zBuf : Bytes} {iAmt iOfst : Int}

theorem failed_database_write (hfits : z.Fits) (hofst : 0 ≤ iOfst)
    (hfail : (fsWrite .database z f io zBuf iAmt iOfst).1 ≠ .ok) :
    Contained .database z f io iAmt iOfst (fsWrite .database z f io zBuf iAmt iOfst) := by
  rcases fsWrite_database_cases hfits f io zBuf iAmt hofst with
    ⟨-, heq⟩ | ⟨-, -, heq⟩ | ⟨hroom, failure, hio, heq⟩
  · rw [heq]
    exact ⟨rfl, fun _ _ => rfl, fun _ _ _ _ => rfl, fun _ _ => rfl, fun _ _ => Or.inl rfl⟩
  · rw [heq] at hfail
    exact absurd rfl hfail
  · rw [heq]
    have hframe : ∀ x, (x < databaseAddr iOfst ∨ databaseAddr iOfst + iAmt ≤ x) →
        (f.overwrite failure.torn (databaseAddr iOfst) iAmt).byte x = f.byte x :=
      fun x hx => ParentFile.overwrite_outside hx
    refine ⟨rfl, ?_, ?_, ?_, ?_⟩
    · intro x hx
      apply hframe
      simp only [databaseAddr, BLOCKSIZE] at *
      omega
    · intro x _ _ hout
      apply hframe
      have hx := hout rfl
      simp only [databaseAddr]
      omega
    · intro x hx
      apply hframe
      by_contra hin
      simp only [databaseAddr] at hin
      refine hx (x - BLOCKSIZE) (by omega) (by omega) ?_
      simp only [EType.addr, databaseAddr]
      omega
    · intro _ hfull
      exact Or.inr ⟨by omega, failure, hio, hfull⟩

theorem failed_journal_write (hfits : z.Fits) (hargs : WriteArgs .journal iAmt iOfst)
    (hfail : (fsWrite .journal z f io zBuf iAmt iOfst).1 ≠ .ok) :
    Contained .journal z f io iAmt iOfst (fsWrite .journal z f io zBuf iAmt iOfst) := by
  have hdatabase := hfits.database
  obtain ⟨hspec, ⟨-, -, heq⟩ | ⟨-, heq⟩⟩ :=
    fsWrite_journal_cases hfits f io zBuf hargs
  · rw [heq] at hfail
    exact absurd rfl hfail
  · rw [heq]
    refine ⟨rfl, ?_, ?_, ?_, nofun⟩
    · intro x hx
      apply hspec.frame
      omega
    · intro x hx hxLt _
      apply hspec.frame
      simp only [databaseAddr]
      omega
    · intro x hx
      apply hspec.frame
      by_contra hin
      -- `x` is then the image of the offset that its own reversal names
      refine hx (journalAddr z.nBlob x) (by omega) (by omega) ?_
      exact (journalAddr_journalAddr hfits.blob x).symm

/-- A write that is not accepted changes no size, nothing in block 0 or in the
rest of the database, and at most the bytes it was asked to store; refused for
want of space on the database side, and not by the parent, it changes nothing. -/
theorem failed_write_contained {eType : EType} (hblob : WholeBlob z.nBlob)
    (hdatabase : 0 ≤ z.nDatabase) (hroom : z.nDatabase + BLOCKSIZE ≤ z.nBlob)
    (hjournal : 0 ≤ z.nJournal ∧ z.nJournal ≤ z.nBlob) (hofst : 0 ≤ iOfst) (hamt : 0 < iAmt)
    (hend : iOfst + iAmt < 2147483648 - 1024)
    (hfail : (fsWrite eType z f io zBuf iAmt iOfst).1 ≠ .ok) :
    Contained eType z f io iAmt iOfst (fsWrite eType z f io zBuf iAmt iOfst) := by
  have hfits : z.Fits := ⟨hblob, hdatabase, hroom, hjournal.1, hjournal.2⟩
  cases eType with
  | database => exact failed_database_write hfits hofst hfail
  | journal =>
      refine failed_journal_write hfits ⟨hofst, hamt, ?_⟩ hfail
      simp only [reduceCtorEq, if_false]
      omega

theorem failed_write_contained_chunk :
    let z : Sizes := ⟨512, 0, BLOBSIZE⟩
    let io : Outcomes := fun n => if n = 0 then .done else .fails ⟨.ioerrWrite, fun _ => 9, nofun⟩
    let out := fsWrite .journal z .blank io (fun _ => 7) 600 500
    Contained .journal z .blank io 600 500 out ∧
      out.2.2.byte (journalAddr BLOBSIZE 500) = 7 := by
  intro z io out
  constructor
  · exact failed_write_contained wholeBlob_BLOBSIZE (by decide) (by decide)
      (by decide) (by decide) (by decide) (by decide) (by decide +kernel)
  · decide +kernel

end SqliteFs
