import SqliteFs.OneDatabase

/-!
Database writes next to an unaligned journal. The space check of the database
side keeps the last `nJournal` bytes of the blob free, but the block that the
journal fills in part is filled from its low end, which lies before these bytes.
-/

namespace SqliteFs

open Lib

/-- Where the block starts that the journal fills in part. -/
def Sizes.partBlock (z : Sizes) : Int :=
  journalAddr z.nBlob (BLOCKSIZE * (z.nJournal / BLOCKSIZE))

/-- A database write that is refused, or next to a journal of whole blocks, or
not into the filled part of its last block. -/
def Sizes.Spares (z : Sizes) (iAmt iOfst : Int) : Prop :=
  z.nBlob - z.nJournal < iOfst + iAmt + BLOCKSIZE ∨ BLOCKSIZE ∣ z.nJournal ∨
    databaseAddr iOfst + iAmt ≤ z.partBlock ∨
    z.partBlock + z.nJournal % BLOCKSIZE ≤ databaseAddr iOfst

variable {z : Sizes} {f : ParentFile} {iAmt iOfst : Int}

/-- A live journal byte is in one of the full blocks at the end of the blob or
in the filled part of the next block below. -/
theorem live_journal_iff (hfits : z.Fits) {x : Int} :
    (∃ j, 0 ≤ j ∧ j < z.nJournal ∧ x = journalAddr z.nBlob j) ↔
      (z.partBlock + BLOCKSIZE ≤ x ∧ x < z.nBlob) ∨
        (z.partBlock ≤ x ∧ x < z.partBlock + z.nJournal % BLOCKSIZE) := by
  have hdvd := hfits.blob.dvd
  have hjournal := hfits.journal
  constructor
  · rintro ⟨j, hlo, hhi, rfl⟩
    simp only [Sizes.partBlock, journalAddr, reversed, BLOCKSIZE] at *
    omega
  · intro hx
    refine ⟨journalAddr z.nBlob x, ?_, ?_, (journalAddr_journalAddr hfits.blob x).symm⟩
    all_goals
      simp only [Sizes.partBlock, journalAddr, reversed, BLOCKSIZE] at *
      omega

theorem spares_iff (hfits : z.Fits) (hamt : 0 < iAmt) :
    z.Spares iAmt iOfst ↔
      z.nBlob - z.nJournal < iOfst + iAmt + BLOCKSIZE ∨
        ∀ j, 0 ≤ j → j < z.nJournal → journalAddr z.nBlob j < databaseAddr iOfst ∨
          databaseAddr iOfst + iAmt ≤ journalAddr z.nBlob j := by
  have hdvd := hfits.blob.dvd
  have hjournal := hfits.journal
  by_cases hfull : z.nBlob - z.nJournal < iOfst + iAmt + BLOCKSIZE
  · simp only [Sizes.Spares, hfull, true_or]
  simp only [Sizes.Spares, hfull, false_or]
  constructor
  · intro hspares j hlo hhi
    have hlive := (live_journal_iff hfits).mp ⟨j, hlo, hhi, rfl⟩
    simp only [Sizes.partBlock, databaseAddr, journalAddr, reversed, BLOCKSIZE] at *
    omega
  · intro hapart
    by_contra hmeets
    -- the first byte that both the write and the filled part cover
    obtain ⟨j, hlo, hhi, heq⟩ := (live_journal_iff hfits
      (x := max (databaseAddr iOfst) z.partBlock)).mpr (Or.inr (by
        simp only [Sizes.partBlock, databaseAddr, journalAddr, reversed, BLOCKSIZE] at *
        omega))
    have hj := hapart j hlo hhi
    simp only [Sizes.partBlock, databaseAddr, journalAddr, reversed, BLOCKSIZE] at *
    omega

/-- In every state of a session, the accepted database writes of a range leave
every journal byte as it is exactly when the range spares the journal. -/
theorem database_write_spares_journal_iff {n : Name} {disk : Disk} {calls : List Call} {s : Sys}
    (hfresh : (disk n).size = 0)
    (hrun : Run Sys.next (Sys.SessionCall n) (Sys.start disk) calls s) {id : Nat} {h : Handle}
    (hh : s.handle id = some h) (htype : h.file.eType = .database) (hofst : 0 ≤ iOfst)
    (hamt : 0 < iAmt) :
    (∀ zBuf io t r, s.step (.xWrite id zBuf iAmt iOfst io) = some (t, r) → r.rc = .ok →
      ∀ j, 0 ≤ j → j < (s.pReal h).nJournal →
        (t.disk n).byte (journalAddr (s.pReal h).nBlob j) =
          (s.disk n).byte (journalAddr (s.pReal h).nBlob j)) ↔
      (s.pReal h).toSizes.Spares iAmt iOfst := by
  have haccount := account_run hfresh hrun
  have hs := haccount.1
  obtain ⟨hacc, -⟩ := haccount.handle (Sys.handle_eq_some hh).1
  rw [spares_iff hacc.fits hamt]
  constructor
  · intro hkept
    by_contra hmeets
    push Not at hmeets
    obtain ⟨hroom, j, hlo, hhi, hafter, hbefore⟩ := hmeets
    let zBuf : Bytes := fun _ => (s.disk n).byte (journalAddr (s.pReal h).nBlob j) + 1
    obtain ⟨t, r, hstep, hrc, hdb⟩ := hs.write_step hh zBuf iAmt iOfst carriedOut
    rcases fsWrite_database_cases hacc.fits (s.disk n) carriedOut zBuf iAmt hofst with
      ⟨hfull, -⟩ | ⟨-, -, heq⟩ | ⟨-, failure, hio, -⟩
    · exact absurd hfull (not_lt.mpr hroom)
    · rw [htype, heq] at hrc hdb
      have hbyte := hkept zBuf carriedOut t r hstep hrc j hlo hhi
      have hfile : t.disk n = (s.disk n).put zBuf (databaseAddr iOfst) iAmt :=
        congrArg Db.file hdb
      rw [hfile, ParentFile.put_inside hafter hbefore] at hbyte
      exact absurd hbyte (by simp [zBuf])
    · cases hio
  · intro hspares zBuf io t r hstep hok j hlo hhi
    obtain ⟨t', r', hstep', hrc, hdb⟩ := hs.write_step hh zBuf iAmt iOfst io
    obtain ⟨rfl, rfl⟩ := Prod.ext_iff.mp (Option.some.inj (hstep.symm.trans hstep'))
    have hfile : t.disk n = _ := congrArg Db.file hdb
    rcases fsWrite_database_cases hacc.fits (s.disk n) io zBuf iAmt hofst with
      ⟨-, heq⟩ | ⟨hfit, -, heq⟩ | ⟨-, failure, -, heq⟩
    · rw [htype, heq, hok] at hrc
      cases hrc
    · rw [htype, heq] at hfile
      rw [hfile]
      apply ParentFile.put_outside
      rcases hspares with hfull | hapart
      · exact absurd hfit (not_le.mpr hfull)
      · exact hapart j hlo hhi
    · rw [htype, heq, hok] at hrc
      exact absurd hrc.symm failure.rc_ne_ok

/-- A journal of 100 bytes. -/
def partCalls : List Call :=
  [.xOpen 0 [100, 98] SQLITE_OPEN_MAIN_DB true carriedOut,
    .xOpen 1 ([100, 98] ++ journalSuffix) 0 true carriedOut,
    .xWrite 1 (fun _ => 1) 100 0 carriedOut]

def partState : Sys := after Sys.next (Sys.start fun _ => .blank) partCalls

theorem partState_run :
    Run Sys.next (Sys.SessionCall [100, 98]) (Sys.start fun _ => .blank) partCalls partState := by
  refine Run.of_after (fun c hc s => ?_) (by decide +kernel)
  fin_cases hc
  · exact ⟨Or.inl ⟨rfl, by decide⟩, trivial, trivial⟩
  · exact ⟨Or.inr ⟨rfl, by decide⟩, trivial, trivial⟩
  · exact ⟨trivial, fun h hh => ⟨by decide, by decide, by split_ifs <;> decide⟩, trivial⟩

theorem partState_handle :
    partState.handle 0 = some ⟨0, [100, 98], ⟨true, .database, 1⟩⟩ := by decide +kernel

theorem database_write_spares_journal_iff_part :
    ¬∀ zBuf io t r, partState.step (.xWrite 0 zBuf 512 10484636 io) = some (t, r) → r.rc = .ok →
      ∀ j, 0 ≤ j → j < (partState.pReal ⟨0, [100, 98], ⟨true, .database, 1⟩⟩).nJournal →
        (t.disk [100, 98]).byte (journalAddr
          (partState.pReal ⟨0, [100, 98], ⟨true, .database, 1⟩⟩).nBlob j) =
          (partState.disk [100, 98]).byte (journalAddr
            (partState.pReal ⟨0, [100, 98], ⟨true, .database, 1⟩⟩).nBlob j) := by
  rw [database_write_spares_journal_iff rfl partState_run partState_handle rfl (by decide)
    (by decide)]
  unfold Sizes.Spares
  decide +kernel

/-- The last 100 bytes of the blob are free, and the first byte of the journal is overwritten. -/
theorem database_write_lands_on_journal :
    Run Sys.next (Sys.SessionCall [100, 98]) (Sys.start fun _ => .blank) partCalls partState ∧
      ∃ t r, partState.step (.xWrite 0 (fun _ => 2) 512 10484636 carriedOut) = some (t, r) ∧
      r.rc = .ok ∧ (partState.disk [100, 98]).byte (journalAddr BLOBSIZE 0) = 1 ∧
      (t.disk [100, 98]).byte (journalAddr BLOBSIZE 0) = 2 := by
  refine ⟨partState_run, _, _, rfl, ?_, ?_, ?_⟩
  all_goals decide +kernel

end SqliteFs
