import SqliteFs.OneDatabase

/-!
The space account of page-aligned runs. With database sizes that are whole
blocks the two admission tests of `fsWrite`, the byte comparison of the
database side and the chunk starts of the journal side, are one rule about
blocks. Deleting the journal respects that account only as long as the database
does not reach into the last block of the blob.
-/

namespace SqliteFs

open Lib

/-- The number of blocks that `n` bytes need, `n / 512` rounded up. -/
def blocks (n : Int) : Int := (n + (BLOCKSIZE - 1)) / BLOCKSIZE

/-- A record of page-aligned operations: the database, block 0 and the blocks
of the journal fit side by side. -/
structure Aligned (z : Sizes) (f : ParentFile) : Prop extends Account z f where
  nBlob_eq : z.nBlob = BLOBSIZE
  dvd : BLOCKSIZE ∣ z.nDatabase
  apart : z.nDatabase + BLOCKSIZE + BLOCKSIZE * blocks z.nJournal ≤ z.nBlob

/-- The admission rule of the database side for whole pages. -/
theorem database_full_iff {z : Sizes} {f : ParentFile} (hal : Aligned z f) {iAmt iOfst : Int}
    (hofst : BLOCKSIZE ∣ iOfst) (hamt : BLOCKSIZE ∣ iAmt) :
    z.nBlob - z.nJournal < iOfst + iAmt + BLOCKSIZE ↔
      z.nBlob < iOfst + iAmt + BLOCKSIZE + BLOCKSIZE * blocks z.nJournal := by
  have hdvd := hal.blob.dvd
  simp only [blocks, BLOCKSIZE] at *
  omega

/-- The admission rule of the journal side over whole pages. -/
theorem journal_starts_iff {z : Sizes} {f : ParentFile} (hal : Aligned z f) {iAmt iOfst : Int}
    (hpos : 0 < iAmt) :
    StartsAbove z.nBlob (z.nDatabase + BLOCKSIZE) iOfst iAmt ↔
      z.nDatabase + BLOCKSIZE + BLOCKSIZE * blocks (iOfst + iAmt) ≤ z.nBlob := by
  have hdvd := hal.blob.dvd
  have hdb := hal.dvd
  rw [startsAbove_iff hpos]
  simp only [lastStart, blocks, journalAddr, reversed, BLOCKSIZE] at *
  omega

/-- The bytes that both regions and block 0 take up when the region of this type
ends at `last` and the other one stays as it is. -/
def Sizes.demand (z : Sizes) (eType : EType) (last : Int) : Int :=
  match eType with
  | .database => last + BLOCKSIZE + BLOCKSIZE * blocks z.nJournal
  | .journal => z.nDatabase + BLOCKSIZE + BLOCKSIZE * blocks last

namespace Aligned

variable {z : Sizes} {f : ParentFile} {io : Outcomes} {zBuf : Bytes} {iAmt iOfst : Int}

theorem fresh {f : ParentFile} (hsize : f.size = 0) :
    Aligned ⟨0, 0, BLOBSIZE⟩ (f.put (fun _ => 0) (BLOBSIZE - 1) 1) where
  toAccount := Account.fresh hsize
  nBlob_eq := rfl
  dvd := dvd_zero _
  apart := by decide

theorem write {eType : EType} (hal : Aligned z f) (io : Outcomes) (zBuf : Bytes)
    (hargs : WriteArgs eType iAmt iOfst)
    (hpage : eType = .database → BLOCKSIZE ∣ iOfst ∧ BLOCKSIZE ∣ iAmt) :
    Aligned (fsWrite eType z f io zBuf iAmt iOfst).2.1
      (fsWrite eType z f io zBuf iAmt iOfst).2.2 := by
  obtain ⟨hacc, hblob⟩ := hal.toAccount.write io zBuf hargs
  refine ⟨hacc, hblob.trans hal.nBlob_eq, ?_, ?_⟩
  all_goals
    have hdvd := hal.dvd
    have hapart := hal.apart
  · cases eType with
    | database =>
        obtain ⟨hofst, hamt⟩ := hpage rfl
        rcases fsWrite_database_cases hal.toAccount.fits f io zBuf iAmt hargs.ofst with
          ⟨-, heq⟩ | ⟨-, -, heq⟩ | ⟨-, failure, -, heq⟩
        · rwa [heq]
        · rw [heq]
          change BLOCKSIZE ∣ max z.nDatabase (iOfst + iAmt)
          simp only [BLOCKSIZE] at *
          omega
        · rwa [heq]
    | journal =>
        obtain ⟨-, ⟨-, -, heq⟩ | ⟨-, heq⟩⟩ :=
          fsWrite_journal_cases hal.toAccount.fits f io zBuf hargs
        all_goals rwa [heq]
  · cases eType with
    | database =>
        obtain ⟨hofst, hamt⟩ := hpage rfl
        have hfull := database_full_iff hal hofst hamt
        rcases fsWrite_database_cases hal.toAccount.fits f io zBuf iAmt hargs.ofst with
          ⟨-, heq⟩ | ⟨hfit, -, heq⟩ | ⟨-, failure, -, heq⟩
        · rwa [heq]
        · rw [heq]
          change max z.nDatabase (iOfst + iAmt) + BLOCKSIZE +
            BLOCKSIZE * blocks z.nJournal ≤ z.nBlob
          omega
        · rwa [heq]
    | journal =>
        obtain ⟨hspec, ⟨hok, -, heq⟩ | ⟨-, heq⟩⟩ :=
          fsWrite_journal_cases hal.toAccount.fits f io zBuf hargs
        · have hstarts := (journal_starts_iff hal hargs.amt).mp (hspec.starts hok)
          rw [heq]
          change z.nDatabase + BLOCKSIZE +
            BLOCKSIZE * blocks (max z.nJournal (iOfst + iAmt)) ≤ z.nBlob
          rcases max_choice z.nJournal (iOfst + iAmt) with hmax | hmax
          · rwa [hmax]
          · rwa [hmax]
        · rwa [heq]

theorem truncate (eType : EType) {size : Int} (hal : Aligned z f) (hsize : 0 ≤ size)
    (hpage : eType = .database → BLOCKSIZE ∣ size) : Aligned (fsTruncate eType z size) f := by
  obtain ⟨hacc, hblob⟩ := hal.toAccount.truncate eType hsize
  have hdvd := hal.dvd
  have hapart := hal.apart
  refine ⟨hacc, hblob.trans hal.nBlob_eq, ?_, ?_⟩
  · rw [fsTruncate_eq hal.toAccount hsize]
    split_ifs with htype
    · have hpage' := hpage htype
      change BLOCKSIZE ∣ min z.nDatabase size
      simp only [BLOCKSIZE] at *
      omega
    · exact hdvd
  · rw [fsTruncate_eq hal.toAccount hsize]
    split_ifs with htype
    · change min z.nDatabase size + BLOCKSIZE + BLOCKSIZE * blocks z.nJournal ≤ z.nBlob
      omega
    · change z.nDatabase + BLOCKSIZE + BLOCKSIZE * blocks (min z.nJournal size) ≤ z.nBlob
      simp only [blocks, BLOCKSIZE] at *
      omega

theorem sync {eType : EType} (hal : Aligned z f) : Aligned z (fsSync eType z f io).2 :=
  ⟨hal.toAccount.sync, hal.nBlob_eq, hal.dvd, hal.apart⟩

theorem delete (hal : Aligned z f) (io : Outcomes) :
    Aligned (deleteReal z f io).2.1 (deleteReal z f io).2.2 := by
  obtain ⟨hacc, hblob, -⟩ := hal.toAccount.delete io
  have hroom := hal.room
  refine ⟨hacc, hblob.trans hal.nBlob_eq, ?_, ?_⟩
  · rcases deleteReal_cases hal.toAccount io with ⟨-, heq⟩ | ⟨failure, -, heq⟩
    · rw [heq]
      exact hal.dvd
    · rw [heq]
      exact hal.dvd
  · rcases deleteReal_cases hal.toAccount io with ⟨-, heq⟩ | ⟨failure, -, heq⟩
    · rw [heq]
      change z.nDatabase + BLOCKSIZE + BLOCKSIZE * blocks 0 ≤ z.nBlob
      simp only [blocks, BLOCKSIZE] at *
      omega
    · rw [heq]
      exact hal.apart

/-- A write of whole pages, or any journal write, is refused exactly when the
two regions would not fit side by side any more, unless a parent write fails. -/
theorem write_rc {eType : EType} (hal : Aligned z f) (hargs : WriteArgs eType iAmt iOfst)
    (hpage : eType = .database → BLOCKSIZE ∣ iOfst ∧ BLOCKSIZE ∣ iAmt) :
    let rc := (fsWrite eType z f io zBuf iAmt iOfst).1
    (∃ k failure, io k = .fails failure ∧ rc = failure.rc) ∨
      (rc = .full ↔ z.nBlob < z.demand eType (iOfst + iAmt)) := by
  intro rc
  cases eType with
  | database =>
      obtain ⟨hofst, hamt⟩ := hpage rfl
      have hfull : z.nBlob - z.nJournal < iOfst + iAmt + BLOCKSIZE ↔
          z.nBlob < z.demand .database (iOfst + iAmt) := database_full_iff hal hofst hamt
      rcases fsWrite_database_cases hal.toAccount.fits f io zBuf iAmt hargs.ofst with
        ⟨hlow, heq⟩ | ⟨hfit, -, heq⟩ | ⟨-, failure, hfail, heq⟩
      · right
        simp only [rc, heq, true_iff]
        exact hfull.mp hlow
      · right
        simp only [rc, heq, reduceCtorEq, false_iff]
        exact fun hdemand => absurd (hfull.mpr hdemand) (not_lt.mpr hfit)
      · exact Or.inl ⟨0, failure, hfail, by simp only [rc, heq]⟩
  | journal =>
      have hstarts : StartsAbove z.nBlob (z.nDatabase + BLOCKSIZE) iOfst iAmt ↔
          z.demand .journal (iOfst + iAmt) ≤ z.nBlob := journal_starts_iff hal hargs.amt
      rcases fsWrite_journal_rc hal.toAccount.fits f io zBuf hargs with
        ⟨hrc, habove⟩ | ⟨hrc, hbelow⟩ | hfail
      · right
        simp only [rc, hrc, reduceCtorEq, false_iff]
        exact not_lt.mpr (hstarts.mp habove)
      · right
        simp only [rc, hrc, true_iff]
        exact not_le.mp fun hle => hbelow (hstarts.mpr hle)
      · exact Or.inl hfail

end Aligned

/-- The calls of a page-aligned run about the database `n`. -/
structure Sys.PageCall (n : Name) (s : Sys) (c : Call) : Prop where
  about : c.About n
  inRange : s.InRange c
  aligned : s.PageAligned c
  staysOpen : s.StaysOpen c

/-- In every state of a page-aligned run the record is an aligned one. -/
theorem aligned_keeps {n : Name} {γ : Type*} {g₀ g g' : γ} {s : Sys} {c : Call} {r : Reply}
    {d : Db} (hs : s.Serves n) (hcall : s.PageCall n c)
    (hidle : s.handles = [] → g = g₀ → g' = g₀) (hpassive : c.Passive → g' = g)
    (hinv : (s.db n).Session g₀ (fun z f _ => Aligned z f) g) (heffect : Effect n s c r d) :
    d.Session g₀ (fun z f _ => Aligned z f) g' := by
  refine Db.Session.effect hs hcall.staysOpen (fun f => Aligned.fresh) hidle hpassive
    ?_ ?_ ?_ ?_ hinv heffect
  · rintro id zBuf iAmt iOfst io h z rfl hh - - hal
    exact hal.write io zBuf (hcall.inRange h hh) (hcall.aligned h hh)
  · rintro id size h z rfl hh - hal
    exact hal.truncate _ hcall.inRange (hcall.aligned h hh)
  · rintro id io h z rfl hh hal
    exact hal.sync
  · rintro zPath io z rfl - hal
    exact hal.delete io

theorem aligned_run {n : Name} {disk : Disk} {calls : List Call} {s : Sys}
    (hfresh : (disk n).size = 0)
    (hrun : Run Sys.next (Sys.PageCall n) (Sys.start disk) calls s) :
    s.Serves n ∧ ∀ h ∈ s.handles, Aligned (s.pReal h).toSizes (s.disk n) := by
  have hinv : s.Serves n ∧ (s.db n).Session () (fun z f _ => Aligned z f) () := by
    refine hrun.invariant (fun s => s.Serves n ∧
      (s.db n).Session () (fun z f _ => Aligned z f) ()) ?_
      ⟨Sys.start_serves disk n, hfresh, rfl⟩
    refine Sys.next_keeps (fun d => d.Session () (fun z f _ => Aligned z f) ())
      (fun s c hcall => hcall.about) ?_
    intro s c r d hs hinv hcall heffect
    exact aligned_keeps (g := ()) hs hcall (fun _ _ => rfl) (fun _ => rfl) hinv heffect
  exact ⟨hinv.1, fun h hmem => hinv.1.session_handle hinv.2 hmem⟩

/-- The database `"db"` with one page, written to the end of the blob. -/
def lastPageCalls : List Call :=
  [.xOpen 0 [100, 98] SQLITE_OPEN_MAIN_DB true carriedOut,
    .xWrite 0 (fun _ => 1) 512 10484736 carriedOut]

theorem lastPage_run : Run Sys.next (Sys.PageCall [100, 98]) (Sys.start fun _ => .blank)
    lastPageCalls (after Sys.next (Sys.start fun _ => .blank) lastPageCalls) := by
  refine Run.of_after ?_ (by decide +kernel)
  intro c hc s
  fin_cases hc
  · exact ⟨Or.inl ⟨rfl, by decide⟩, trivial, trivial, trivial⟩
  · refine ⟨trivial, fun h hh => ⟨by decide, by decide, ?_⟩, fun h hh hdb => ?_, trivial⟩
    · split_ifs <;> decide
    · exact ⟨by decide, by decide⟩

/-- The two regions stay apart in every state, and `SQLITE_FULL` is the answer
to exactly those writes that would make them meet. -/
theorem space_account {n : Name} {disk : Disk} {calls : List Call} {s : Sys}
    (hfresh : (disk n).size = 0)
    (hrun : Run Sys.next (Sys.PageCall n) (Sys.start disk) calls s) {id : Nat} {h : Handle}
    (hh : s.handle id = some h) :
    let z := (s.pReal h).toSizes
    (BLOCKSIZE ∣ z.nDatabase ∧
        z.nDatabase + BLOCKSIZE + BLOCKSIZE * blocks z.nJournal ≤ z.nBlob) ∧
      ∀ zBuf iAmt iOfst io t r, Sys.PageCall n s (.xWrite id zBuf iAmt iOfst io) →
        s.step (.xWrite id zBuf iAmt iOfst io) = some (t, r) →
        (∃ k failure, io k = .fails failure ∧ r.rc = failure.rc) ∨
          (r.rc = .full ↔ z.nBlob < z.demand h.file.eType (iOfst + iAmt)) := by
  intro z
  obtain ⟨hserves, hall⟩ := aligned_run hfresh hrun
  obtain ⟨hmem, -⟩ := Sys.handle_eq_some hh
  have hal := hall h hmem
  refine ⟨⟨hal.dvd, hal.apart⟩, ?_⟩
  intro zBuf iAmt iOfst io t r hcall hstep
  have hrc : r.rc = (fsWrite h.file.eType z (s.disk n) io zBuf iAmt iOfst).1 := by
    simp only [Sys.step, hh, Option.map_some, Option.some.injEq, Prod.mk.injEq] at hstep
    rw [← hstep.2, (hserves.handle_db hmem).2]
  rw [hrc]
  exact hal.write_rc (hcall.inRange h hh) (hcall.aligned h hh)

theorem space_account_last_page :
    let s := after Sys.next (Sys.start fun _ => .blank) lastPageCalls
    ∃ h t r, s.handle 0 = some h ∧ BLOCKSIZE ∣ (s.pReal h).nDatabase ∧
      s.step (.xWrite 0 (fun _ => 1) 512 10485248 carriedOut) = some (t, r) ∧ r.rc = .full := by
  intro s
  have hh : s.handle 0 = some ⟨0, [100, 98], ⟨true, .database, 1⟩⟩ := by decide +kernel
  obtain ⟨⟨hdvd, -⟩, hwrite⟩ := space_account rfl lastPage_run hh
  have hcall : Sys.PageCall [100, 98] s (.xWrite 0 (fun _ => 1) 512 10485248 carriedOut) :=
    ⟨trivial, fun h hh => ⟨by decide, by decide, by split_ifs <;> decide⟩,
      fun h hh hdb => ⟨by decide, by decide⟩, trivial⟩
  refine ⟨_, _, _, hh, hdvd, rfl, ?_⟩
  rcases hwrite _ _ _ _ _ _ hcall rfl with ⟨k, failure, hfail, -⟩ | hfull
  · cases hfail
  · exact hfull.mpr (by decide +kernel)

/-- What the four bytes that `fsDelete` writes hold afterwards. -/
def zeroed (io : Outcomes) (k : Int) : UInt8 :=
  match io 0 with
  | .done => 0
  | .fails failure => failure.torn k

theorem deleteReal_zeroed {z : Sizes} {f : ParentFile} (hacc : Account z f) (io : Outcomes)
    {k : Int} (hlo : 0 ≤ k) (hhi : k < 4) :
    (deleteReal z f io).2.2.byte (z.nBlob - BLOCKSIZE + k) = zeroed io k := by
  have hsize := hacc.size
  rcases deleteReal_cases hacc io with ⟨hio, heq⟩ | ⟨failure, hio, heq⟩
  · rw [heq]
    simp only [zeroed, hio]
    exact ParentFile.put_inside (by omega) (by omega)
  · rw [heq]
    simp only [zeroed, hio, ParentFile.overwrite, BLOCKSIZE]
    rw [if_pos (by omega), overlay_inside (by omega) (by omega), add_sub_cancel_left]

/-- What deleting the journal does to the record and the parent file of an
open database. -/
theorem Sys.Serves.delete_open {n : Name} {s t : Sys} (hs : s.Serves n) {h : Handle}
    (hmem : h ∈ s.handles) {io : Outcomes} {r : Reply}
    (hstep : s.step (.xDelete (n ++ journalSuffix) io) = some (t, r)) :
    (t.pReal h).toSizes = (deleteReal (s.pReal h).toSizes (s.disk n) io).2.1 ∧
      t.disk n = (deleteReal (s.pReal h).toSizes (s.disk n) io).2.2 := by
  have habout : (Call.xDelete (n ++ journalSuffix) io).About n := rfl
  have hhandles : t.handles = s.handles := by
    obtain ⟨out, -, heq⟩ := Option.map_eq_some_iff.mp hstep
    obtain ⟨rfl, -⟩ := Prod.ext_iff.mp heq
    rfl
  have hafter := ((hs.step habout hstep).handle_db (h := h) (by rwa [hhandles])).1
  have hbefore := (hs.handle_db hmem).1
  have heffect := Sys.step_effect hs habout hstep
  generalize t.db n = d at heffect hafter
  cases heffect with
  | @delete _ _ _ z hsizes =>
      rw [hbefore] at hsizes
      obtain rfl := Option.some.inj hsizes
      obtain ⟨hsizes', hfile⟩ := Db.mk.inj hafter
      exact ⟨(Option.some.inj hsizes').symm, hfile.symm⟩
  | deleteClosed hclosed =>
      rw [hbefore] at hclosed
      cases hclosed

/-- Deleting the journal leaves the database as it is exactly when the
database does not reach into the last block, or holds there already what the
deletion writes. -/
theorem delete_spares_database_iff {n : Name} {disk : Disk} {calls : List Call} {s t : Sys}
    (hfresh : (disk n).size = 0)
    (hrun : Run Sys.next (Sys.PageCall n) (Sys.start disk) calls s) {id : Nat} {h : Handle}
    (hh : s.handle id = some h) {io : Outcomes} {r : Reply}
    (hstep : s.step (.xDelete (n ++ journalSuffix) io) = some (t, r)) :
    let z := (s.pReal h).toSizes
    ((t.pReal h).nDatabase = z.nDatabase ∧ ∀ x, 0 ≤ x → x < z.nDatabase →
        (t.disk n).byte (databaseAddr x) = (s.disk n).byte (databaseAddr x)) ↔
      z.nDatabase + 2 * BLOCKSIZE ≤ z.nBlob ∨ ∀ k, 0 ≤ k → k < 4 →
        (s.disk n).byte (z.nBlob - BLOCKSIZE + k) = zeroed io k := by
  intro z
  obtain ⟨hserves, hall⟩ := aligned_run hfresh hrun
  obtain ⟨hmem, -⟩ := Sys.handle_eq_some hh
  have hal : Aligned z (s.disk n) := hall h hmem
  obtain ⟨hsizes, hfile⟩ := hserves.delete_open hmem hstep
  have hkept : (t.pReal h).nDatabase = z.nDatabase := by
    rw [hsizes]
    exact (hal.toAccount.delete io).2.2
  have hdvd := hal.dvd
  have hroom := hal.room
  have hnBlob := hal.nBlob_eq
  simp only [hkept, true_and, hfile, BLOCKSIZE, BLOBSIZE, databaseAddr] at *
  constructor
  · intro hsame
    by_cases hfar : z.nDatabase + 2 * 512 ≤ z.nBlob
    · exact Or.inl hfar
    · -- the database ends with the blob, so its last page is the last block
      right
      intro k hlo hhi
      have hk := hsame (z.nBlob - 1024 + k) (by omega) (by omega)
      have hzero := deleteReal_zeroed hal.toAccount io hlo hhi
      rw [show z.nBlob - 1024 + k + 512 = z.nBlob - 512 + k by ring] at hk
      rw [← hk]
      exact hzero
  · rintro hcond x hlo hhi
    by_cases hin : z.nBlob - 512 ≤ x + 512 ∧ x + 512 < z.nBlob - 512 + 4
    · rcases hcond with hfar | hzero
      · omega
      · have hk := hzero (x + 512 - (z.nBlob - 512)) (by omega) (by omega)
        have hlo' : 0 ≤ x + 512 - (z.nBlob - 512) := by omega
        have hhi' : x + 512 - (z.nBlob - 512) < 4 := by omega
        have hk := hzero _ hlo' hhi'
        have hput := deleteReal_zeroed hal.toAccount io hlo' hhi'
        simp only [BLOCKSIZE, add_sub_cancel] at hput hk
        rw [hput, hk]
    · exact deleteReal_frame hal.toAccount (by simp only [BLOCKSIZE]; omega)

theorem delete_spares_database_last_page :
    let s := after Sys.next (Sys.start fun _ => .blank) lastPageCalls
    ∃ t h r, s.handle 0 = some h ∧
      s.step (.xDelete ([100, 98] ++ journalSuffix) carriedOut) = some (t, r) ∧
      ¬((t.pReal h).nDatabase = (s.pReal h).nDatabase ∧
        ∀ x, 0 ≤ x → x < (s.pReal h).nDatabase →
          (t.disk [100, 98]).byte (databaseAddr x) = (s.disk [100, 98]).byte (databaseAddr x)) := by
  intro s
  have hh : s.handle 0 = some ⟨0, [100, 98], ⟨true, .database, 1⟩⟩ := by decide +kernel
  refine ⟨_, _, _, hh, rfl, ?_⟩
  intro hspared
  have hstep : s.step (.xDelete ([100, 98] ++ journalSuffix) carriedOut) = some _ := rfl
  have hcond := (delete_spares_database_iff rfl lastPage_run hh hstep).mp hspared
  rcases hcond with hfar | hzero
  · exact absurd hfar (by decide +kernel)
  · exact absurd (hzero 0 (le_refl 0) (by decide)) (by decide +kernel)

/-- The last page loses its first bytes when the journal, which does not even
exist, is deleted. -/
theorem delete_damages_last_page :
    let s := after Sys.next (Sys.start fun _ => .blank) lastPageCalls
    ∃ t h r, Run Sys.next (Sys.PageCall [100, 98]) (Sys.start fun _ => .blank) lastPageCalls s ∧
      s.handle 0 = some h ∧
      s.step (.xDelete ([100, 98] ++ journalSuffix) carriedOut) = some (t, r) ∧ r.rc = .ok ∧
      10484736 < (s.pReal h).nDatabase ∧
      (s.disk [100, 98]).byte (databaseAddr 10484736) = 1 ∧
      (t.disk [100, 98]).byte (databaseAddr 10484736) = 0 := by
  intro s
  have hh : s.handle 0 = some ⟨0, [100, 98], ⟨true, .database, 1⟩⟩ := by decide +kernel
  refine ⟨_, _, _, lastPage_run, hh, rfl, ?_, ?_, ?_, ?_⟩
  all_goals decide +kernel

end SqliteFs
