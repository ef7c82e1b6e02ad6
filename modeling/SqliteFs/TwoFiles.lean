import SqliteFs.Accounting

/-!
The blob as its caller sees it: two files that know nothing of each other.
`TwoFiles.observe` follows the calls and their answers without looking at the
record or the medium. The database region refines its file in every run, the
journal region refines its own as long as the database is written in whole
pages, which is what keeps a partly filled last block of the journal safe.
-/

namespace SqliteFs

open Lib

/-- The database and the journal as files of their own. -/
structure TwoFiles where
  database : ByteFile UInt8
  journal : ByteFile UInt8

def Sys.eType (s : Sys) (id : Nat) : Option EType := (s.handle id).map fun h => h.file.eType

theorem Sys.eType_handle {s : Sys} {id : Nat} {h : Handle} (hh : s.handle id = some h) :
    s.eType id = some h.file.eType := by
  rw [Sys.eType, hh, Option.map_some]

namespace TwoFiles

def empty : TwoFiles := ⟨.empty, .empty⟩

/-- What a call and its answer tell about the two files. A journal write that
was refused may have been carried out in part. -/
def observe (s : Sys) (c : Call) (r : Reply) (g : TwoFiles) : TwoFiles :=
  match c with
  | .xWrite id zBuf iAmt iOfst _ =>
    match s.eType id with
    | some .database =>
      if r.rc = .ok then { g with database := g.database.write zBuf iOfst iAmt } else g
    | some .journal =>
      if r.rc = .ok then { g with journal := g.journal.write zBuf iOfst iAmt }
      else { g with journal := g.journal.forget iOfst iAmt }
    | none => g
  | .xTruncate id size =>
    match s.eType id with
    | some .database => { g with database := g.database.truncate size }
    | some .journal => { g with journal := g.journal.truncate size }
    | none => g
  | .xDelete _ _ => if r.rc = .ok then { g with journal := .empty } else g
  | _ => g

theorem observe_passive {s : Sys} {c : Call} {r : Reply} {g : TwoFiles} (hc : c.Passive) :
    observe s c r g = g := by
  cases c with
  | xWrite | xTruncate | xDelete => exact absurd hc id
  | _ => rfl

/-- Nothing happens to the files of a database that is not open. -/
theorem observe_idle {s : Sys} {c : Call} {r : Reply} (hnone : s.handles = []) :
    observe s c r empty = empty := by
  have htype : ∀ id, s.eType id = none := by
    intro id
    rw [Sys.eType, Sys.handle, hnone, List.find?_nil, Option.map_none]
  cases c with
  | xWrite | xTruncate => simp only [observe, htype]
  | xDelete =>
      simp only [observe]
      split_ifs
      · rfl
      · rfl
  | _ => rfl

end TwoFiles

/-! ## The database region -/

/-- The record and the medium hold `g` as the database. -/
structure HoldsDatabase (z : Sizes) (f : ParentFile) (g : ByteFile UInt8) : Prop
    extends Account z f where
  length : g.size = z.nDatabase
  stored : g.StoredIn f.byte databaseAddr

namespace HoldsDatabase

variable {z : Sizes} {f : ParentFile} {g : ByteFile UInt8} {io : Outcomes} {zBuf : Bytes}
  {iAmt iOfst : Int}

theorem fresh {f : ParentFile} (hsize : f.size = 0) :
    HoldsDatabase ⟨0, 0, BLOBSIZE⟩ (f.put (fun _ => 0) (BLOBSIZE - 1) 1) .empty where
  toAccount := (Aligned.fresh hsize).toAccount
  length := rfl
  stored := ByteFile.empty_storedIn

/-- An accepted write is stored, a refused one changes nothing. -/
theorem write_database (hg : HoldsDatabase z f g) (hio : io.Ideal) (zBuf : Bytes)
    (hargs : WriteArgs .database iAmt iOfst) :
    let out := fsWrite .database z f io zBuf iAmt iOfst
    HoldsDatabase out.2.1 out.2.2
      (if out.1 = .ok then g.write zBuf iOfst iAmt else g) := by
  intro out
  have hacc := (hg.toAccount.write io zBuf hargs).1
  have hlength := hg.length
  rcases fsWrite_database_cases hg.toAccount.fits f io zBuf iAmt hargs.ofst with
    ⟨-, heq⟩ | ⟨-, -, heq⟩ | ⟨-, failure, hfail, -⟩
  · simp only [out, heq, reduceCtorEq, if_false]
    exact hg
  · simp only [out, heq, if_true] at hacc ⊢
    refine ⟨hacc, by rw [← hlength]; rfl, ?_⟩
    refine hg.stored.write hargs.ofst ?_ ?_
    · intro i hlo hhi
      rw [ParentFile.put_inside (by simp only [databaseAddr]; omega)
        (by simp only [databaseAddr]; omega)]
      congr 1
      simp only [databaseAddr]
      ring
    · intro i hlo hhi hout
      apply ParentFile.put_outside
      simp only [databaseAddr]
      omega
  · rw [hio 0] at hfail
    cases hfail

/-- A journal write keeps off the database, also when it is refused half way. -/
theorem write_journal (hg : HoldsDatabase z f g) (io : Outcomes) (zBuf : Bytes)
    (hargs : WriteArgs .journal iAmt iOfst) :
    HoldsDatabase (fsWrite .journal z f io zBuf iAmt iOfst).2.1
      (fsWrite .journal z f io zBuf iAmt iOfst).2.2 g := by
  have hacc := (hg.toAccount.write io zBuf hargs).1
  have hlength := hg.length
  obtain ⟨hspec, ⟨-, -, heq⟩ | ⟨-, heq⟩⟩ :=
    fsWrite_journal_cases hg.toAccount.fits f io zBuf hargs
  all_goals
    rw [heq] at hacc ⊢
    refine ⟨hacc, hlength, hg.stored.frame ?_⟩
    intro i hlo hhi
    apply hspec.frame
    left
    simp only [databaseAddr]
    omega

theorem truncate (hg : HoldsDatabase z f g) (eType : EType) {size : Int} (hsize : 0 ≤ size) :
    HoldsDatabase (fsTruncate eType z size) f
      (if eType = .database then g.truncate size else g) := by
  have hacc := (hg.toAccount.truncate eType hsize).1
  rw [fsTruncate_eq hg.toAccount hsize] at hacc ⊢
  cases eType with
  | database =>
      refine ⟨hacc, ?_, hg.stored.truncate size⟩
      change min g.size size = min z.nDatabase size
      rw [hg.length]
  | journal => exact ⟨hacc, hg.length, hg.stored⟩

theorem sync {eType : EType} (hg : HoldsDatabase z f g) :
    HoldsDatabase z (fsSync eType z f io).2 g := by
  refine ⟨hg.toAccount.sync, hg.length, hg.stored.frame ?_⟩
  intro i hlo hhi
  apply fsSync_frame
  simp only [databaseAddr, BLOCKSIZE]
  omega

/-- A read is answered exactly inside the file, with the bytes of the file. -/
theorem read (hg : HoldsDatabase z f g) (hio : io.Ideal) (hofst : 0 ≤ iOfst) :
    let out := fsRead .database z f io zBuf iAmt iOfst
    (out.1 = .ok ↔ iOfst + iAmt ≤ g.size) ∧
      (out.1 = .ok → ∀ k v, 0 ≤ k → k < iAmt → g.cell (iOfst + k) = some v → out.2 k = v) := by
  intro out
  have hlength := hg.length
  have hroom := hg.room
  have hsize := hg.toAccount.size
  by_cases hin : iOfst + iAmt ≤ g.size
  · have hout : out = (.ok, overlay zBuf (fun k => f.byte (iOfst + BLOCKSIZE + k)) 0 iAmt) := by
      simp only [out, fsRead, reduceCtorEq, false_and, or_false, true_and, if_true]
      rw [if_neg (by omega), hio 0]
      apply ParentFile.xRead_inside
      · simp only [BLOCKSIZE]
        omega
      · omega
    simp only [hout, hin, true_and, forall_const]
    intro k v hlo hhi hcell
    obtain ⟨-, hbyte⟩ := hg.stored _ _ hcell
    rw [overlay_inside hlo (by omega), sub_zero, ← hbyte]
    congr 1
    simp only [databaseAddr]
    ring
  · have hout : out = (.ioerrShortRead, zBuf) := by
      simp only [out, fsRead, reduceCtorEq, false_and, or_false, true_and]
      rw [if_pos (by omega)]
    simp only [hout, reduceCtorEq, hin, true_and, false_imp_iff]

end HoldsDatabase

/-! ## The journal region -/

/-- The record and the medium hold `g` as the journal, next to a database of
whole pages. -/
structure HoldsJournal (z : Sizes) (f : ParentFile) (g : ByteFile UInt8) : Prop
    extends Aligned z f where
  length : g.size = z.nJournal
  stored : g.StoredIn f.byte (journalAddr z.nBlob)

namespace HoldsJournal

variable {z : Sizes} {f : ParentFile} {g : ByteFile UInt8} {io : Outcomes} {zBuf : Bytes}
  {iAmt iOfst : Int}

/-- The journal is stored in its own blocks, the last of them included. -/
theorem above (hg : HoldsJournal z f g) {i : Int} (hhi : i < g.size) :
    z.nBlob - BLOCKSIZE * blocks z.nJournal ≤ journalAddr z.nBlob i := by
  have hlength := hg.length
  simp only [blocks, journalAddr, reversed, BLOCKSIZE]
  omega

theorem fresh {f : ParentFile} (hsize : f.size = 0) :
    HoldsJournal ⟨0, 0, BLOBSIZE⟩ (f.put (fun _ => 0) (BLOBSIZE - 1) 1) .empty where
  toAligned := Aligned.fresh hsize
  length := rfl
  stored := ByteFile.empty_storedIn

theorem write_database (hg : HoldsJournal z f g) (io : Outcomes) (zBuf : Bytes)
    (hargs : WriteArgs .database iAmt iOfst)
    (hpage : BLOCKSIZE ∣ iOfst ∧ BLOCKSIZE ∣ iAmt) :
    HoldsJournal (fsWrite .database z f io zBuf iAmt iOfst).2.1
      (fsWrite .database z f io zBuf iAmt iOfst).2.2 g := by
  have hal := hg.toAligned.write io zBuf hargs fun _ => hpage
  have hfull := database_full_iff hg.toAligned hpage.1 hpage.2
  rcases fsWrite_database_cases hg.toAccount.fits f io zBuf iAmt hargs.ofst with
    ⟨-, heq⟩ | ⟨hfit, -, heq⟩ | ⟨hfit, failure, -, heq⟩
  · rw [heq]
    exact hg
  · rw [heq] at hal ⊢
    refine ⟨hal, hg.length, hg.stored.frame ?_⟩
    intro i hlo hhi
    have habove := hg.above hhi
    apply ParentFile.put_outside
    simp only [databaseAddr]
    omega
  · rw [heq] at hal ⊢
    refine ⟨hal, hg.length, hg.stored.frame ?_⟩
    intro i hlo hhi
    have habove := hg.above hhi
    apply ParentFile.overwrite_outside
    simp only [databaseAddr]
    omega

/-- What a journal write stored can be read back. A write that was refused
loses at most what was in its range. -/
theorem write_journal (hg : HoldsJournal z f g) (io : Outcomes) (zBuf : Bytes)
    (hargs : WriteArgs .journal iAmt iOfst) :
    let out := fsWrite .journal z f io zBuf iAmt iOfst
    HoldsJournal out.2.1 out.2.2
      (if out.1 = .ok then g.write zBuf iOfst iAmt else g.forget iOfst iAmt) := by
  intro out
  have hal := hg.toAligned.write io zBuf hargs nofun
  have hlength := hg.length
  obtain ⟨hspec, hcases⟩ :=
    fsWrite_journal_cases hg.toAccount.fits f io zBuf hargs
  have hother : ∀ i, 0 ≤ i → i < g.size → (i < iOfst ∨ iOfst + iAmt ≤ i) →
      (writeChunks z f io zBuf iAmt 0 iOfst).2.byte (journalAddr z.nBlob i) =
        f.byte (journalAddr z.nBlob i) := by
    intro i hlo hhi hout
    apply hspec.frame
    right
    rwa [journalAddr_journalAddr hg.blob]
  rcases hcases with ⟨hok, -, heq⟩ | ⟨hrefused, heq⟩
  · simp only [out, heq, if_true] at hal ⊢
    refine ⟨hal, by rw [← hlength]; rfl, hg.stored.write hargs.ofst ?_ hother⟩
    intro i hlo hhi
    rw [hspec.stored hok i hlo hhi, zero_add]
  · simp only [out, heq, hrefused, if_false] at hal ⊢
    exact ⟨hal, hlength, hg.stored.forget hother⟩

theorem truncate (hg : HoldsJournal z f g) (eType : EType) {size : Int} (hsize : 0 ≤ size)
    (hpage : eType = .database → BLOCKSIZE ∣ size) :
    HoldsJournal (fsTruncate eType z size) f
      (if eType = .database then g else g.truncate size) := by
  have hal := hg.toAligned.truncate eType hsize hpage
  rw [fsTruncate_eq hg.toAccount hsize] at hal ⊢
  cases eType with
  | database => exact ⟨hal, hg.length, hg.stored⟩
  | journal =>
      refine ⟨hal, ?_, hg.stored.truncate size⟩
      change min g.size size = min z.nJournal size
      rw [hg.length]

theorem sync {eType : EType} (hg : HoldsJournal z f g) :
    HoldsJournal z (fsSync eType z f io).2 g := by
  refine ⟨hg.toAligned.sync, hg.length, hg.stored.frame ?_⟩
  intro i hlo hhi
  have habove := hg.above hhi
  have hapart := hg.apart
  have hdb := hg.database
  apply fsSync_frame
  simp only [BLOCKSIZE] at *
  omega

theorem delete (hg : HoldsJournal z f g) (hio : io.Ideal) :
    (deleteReal z f io).1 = .ok ∧
      HoldsJournal (deleteReal z f io).2.1 (deleteReal z f io).2.2 .empty := by
  have hal := hg.toAligned.delete io
  rcases deleteReal_cases hg.toAccount io with ⟨-, heq⟩ | ⟨failure, hfail, -⟩
  · rw [heq] at hal ⊢
    exact ⟨rfl, hal, rfl, ByteFile.empty_storedIn⟩
  · rw [hio 0] at hfail
    cases hfail

/-- Every range inside the journal can be read, with the bytes of the file. -/
theorem read (hg : HoldsJournal z f g) (hio : io.Ideal) (hofst : 0 ≤ iOfst) (hamt : 0 < iAmt)
    (hin : iOfst + iAmt ≤ g.size) :
    let out := fsRead .journal z f io zBuf iAmt iOfst
    out.1 = .ok ∧ ∀ k v, 0 ≤ k → k < iAmt → g.cell (iOfst + k) = some v → out.2 k = v := by
  intro out
  have hlength := hg.length
  have hle := hg.journalLe
  have hnBlob := hg.nBlob_eq
  simp only [BLOBSIZE] at hnBlob
  have hstart : int32 iOfst = iOfst := int32_of_bounds (by omega) (by omega)
  have hout : out =
      (.ok, overlay zBuf (fun k => f.byte (journalAddr z.nBlob (iOfst + k))) 0 iAmt) := by
    simp only [out, fsRead, reduceCtorEq, false_and, false_or, true_and, if_false]
    rw [if_neg (by omega), hstart]
    exact readChunks_spec hg.blob hio ⟨hofst, hamt.le, by omega⟩ (by omega) hg.toAccount.size
  simp only [hout, true_and]
  intro k v hlo hhi hcell
  obtain ⟨-, hbyte⟩ := hg.stored _ _ hcell
  rw [overlay_inside hlo (by omega), sub_zero, ← hbyte]

end HoldsJournal

/-! ## Runs -/

/-- The calls about a database that stays open and whose journal is not
deleted, over a medium that carries out what it is asked to. -/
structure Sys.DatabaseCall (n : Name) (s : Sys) (c : Call) : Prop where
  about : c.About n
  inRange : s.InRange c
  ideal : c.Ideal
  staysOpen : s.StaysOpen c
  keepsJournal : ∀ zPath io, c ≠ .xDelete zPath io

theorem database_run {n : Name} {disk : Disk} {calls : List Call} {s : Sys} {g : TwoFiles}
    (hfresh : (disk n).size = 0)
    (hrun : Run (tracked Sys.step TwoFiles.observe) (fun sg => Sys.DatabaseCall n sg.1)
      (Sys.start disk, .empty) calls (s, g)) {h : Handle} (hmem : h ∈ s.handles) :
    s.pFile h = s.disk n ∧ HoldsDatabase (s.pReal h).toSizes (s.disk n) g.database := by
  have hinv : s.Serves n ∧
      (s.db n).Session .empty (fun z f g => HoldsDatabase z f g.database) g := by
    refine Sys.tracked_run
      (fun d g => d.Session .empty (fun z f g => HoldsDatabase z f g.database) g)
      (fun sg c hcall => hcall.about) ?_ hrun (Sys.start_serves disk n) ⟨hfresh, rfl⟩
    intro s g c r d hs hinv hcall heffect
    refine Db.Session.effect hs hcall.staysOpen (fun f => HoldsDatabase.fresh) ?_
      TwoFiles.observe_passive ?_ ?_ ?_ ?_ hinv heffect
    · rintro hnone rfl
      exact TwoFiles.observe_idle hnone
    · rintro id zBuf iAmt iOfst io h z rfl hh - hrc hg
      have hargs := hcall.inRange h hh
      simp only [TwoFiles.observe, Sys.eType_handle hh, hrc]
      cases htype : h.file.eType with
      | database =>
          rw [htype] at hargs
          have hwrite := hg.write_database hcall.ideal zBuf hargs
          simp only at hwrite ⊢
          split_ifs at hwrite ⊢
          · exact hwrite
          · exact hwrite
      | journal =>
          rw [htype] at hargs
          have hwrite := hg.write_journal io zBuf hargs
          simp only
          split_ifs
          · exact hwrite
          · exact hwrite
    · rintro id size h z rfl hh - hg
      have htruncate := hg.truncate h.file.eType hcall.inRange
      simp only [TwoFiles.observe, Sys.eType_handle hh]
      cases htype : h.file.eType with
      | database => simpa only [htype, if_true] using htruncate
      | journal => simpa only [htype, reduceCtorEq, if_false] using htruncate
    · rintro id io h z rfl hh hg
      exact hg.sync
    · rintro zPath io z rfl
      exact absurd rfl (hcall.keepsJournal zPath io)
  exact ⟨(hinv.1.handle_db hmem).2, hinv.1.session_handle hinv.2 hmem⟩

/-- Two pages of `"db"` and two blocks of its journal. -/
def twoFileCalls : List Call :=
  [.xOpen 0 [100, 98] SQLITE_OPEN_MAIN_DB true carriedOut,
    .xOpen 1 ([100, 98] ++ journalSuffix) 0 true carriedOut,
    .xWrite 0 (fun _ => 7) 1024 0 carriedOut,
    .xWrite 1 (fun _ => 9) 1024 512 carriedOut]

def twoFileState : Sys × TwoFiles :=
  after (tracked Sys.step TwoFiles.observe) (Sys.start fun _ => .blank, .empty) twoFileCalls

theorem twoFileCalls_allowed : ∀ c ∈ twoFileCalls, ∀ s, Sys.DatabaseCall [100, 98] s c := by
  intro c hc s
  fin_cases hc
  · exact ⟨Or.inl ⟨rfl, by decide⟩, trivial, carriedOut_ideal, trivial, nofun⟩
  · exact ⟨Or.inr ⟨rfl, by decide⟩, trivial, carriedOut_ideal, trivial, nofun⟩
  · exact ⟨trivial, fun h hh => ⟨by decide, by decide, by split_ifs <;> decide⟩,
      carriedOut_ideal, trivial, nofun⟩
  · exact ⟨trivial, fun h hh => ⟨by decide, by decide, by split_ifs <;> decide⟩,
      carriedOut_ideal, trivial, nofun⟩

theorem twoFileState_database : Run (tracked Sys.step TwoFiles.observe)
    (fun sg => Sys.DatabaseCall [100, 98] sg.1) (Sys.start fun _ => .blank, .empty) twoFileCalls
    twoFileState :=
  Run.of_after (fun c hc sg => twoFileCalls_allowed c hc sg.1) (by decide +kernel)

/-- The database region is a file of its own: in every state of a run its
size is that of the file, a read is answered with `SQLITE_OK` exactly inside
the file, and every byte that was written and not cut off reads back. -/
theorem database_refines {n : Name} {disk : Disk} {calls : List Call} {s : Sys} {g : TwoFiles}
    (hfresh : (disk n).size = 0)
    (hrun : Run (tracked Sys.step TwoFiles.observe) (fun sg => Sys.DatabaseCall n sg.1)
      (Sys.start disk, .empty) calls (s, g))
    {id : Nat} {h : Handle} (hh : s.handle id = some h) (htype : h.file.eType = .database) :
    (∀ t r, s.step (.xFileSize id) = some (t, r) → r.out = g.database.size) ∧
      ∀ zBuf iAmt iOfst io t r, 0 ≤ iOfst → 0 < iAmt → io.Ideal →
        s.step (.xRead id zBuf iAmt iOfst io) = some (t, r) →
        (r.rc = .ok ↔ iOfst + iAmt ≤ g.database.size) ∧
          (r.rc = .ok → ∀ k v, 0 ≤ k → k < iAmt →
            g.database.cell (iOfst + k) = some v → r.zBuf k = v) := by
  obtain ⟨hfile, hg⟩ := database_run hfresh hrun (Sys.handle_eq_some hh).1
  constructor
  · intro t r hstep
    simp only [Sys.step, hh, Option.map_some, Option.some.injEq, Prod.mk.injEq] at hstep
    rw [← hstep.2, hg.length]
    simp only [fsFileSize, htype, if_true]
  · intro zBuf iAmt iOfst io t r hofst hamt hio hstep
    simp only [Sys.step, hh, Option.map_some, Option.some.injEq, Prod.mk.injEq, htype,
      hfile] at hstep
    rw [← hstep.2]
    exact hg.read hio hofst

theorem database_refines_two_files :
    ∃ h t r, twoFileState.1.handle 0 = some h ∧
      twoFileState.1.step (.xRead 0 (fun _ => 0) 24 1000 carriedOut) = some (t, r) ∧
      r.rc = .ok ∧ r.zBuf 23 = 7 := by
  have hh : twoFileState.1.handle 0 = some ⟨0, [100, 98], ⟨true, .database, 1⟩⟩ := by
    decide +kernel
  obtain ⟨-, hread⟩ := database_refines rfl twoFileState_database hh rfl
  obtain ⟨hok, hbytes⟩ := hread (fun _ => 0) 24 1000 carriedOut _ _ (by decide) (by decide)
    carriedOut_ideal rfl
  have hrc := hok.mpr (by decide +kernel)
  exact ⟨_, _, _, hh, rfl, hrc, hbytes hrc 23 7 (by decide) (by decide) (by decide +kernel)⟩

/-- The calls of a page-aligned run over a medium that carries out what it is
asked to. -/
structure Sys.JournalCall (n : Name) (s : Sys) (c : Call) : Prop extends Sys.PageCall n s c where
  ideal : c.Ideal

theorem journal_run {n : Name} {disk : Disk} {calls : List Call} {s : Sys} {g : TwoFiles}
    (hfresh : (disk n).size = 0)
    (hrun : Run (tracked Sys.step TwoFiles.observe) (fun sg => Sys.JournalCall n sg.1)
      (Sys.start disk, .empty) calls (s, g)) {h : Handle} (hmem : h ∈ s.handles) :
    s.pFile h = s.disk n ∧ HoldsJournal (s.pReal h).toSizes (s.disk n) g.journal := by
  have hinv : s.Serves n ∧
      (s.db n).Session .empty (fun z f g => HoldsJournal z f g.journal) g := by
    refine Sys.tracked_run
      (fun d g => d.Session .empty (fun z f g => HoldsJournal z f g.journal) g)
      (fun sg c hcall => hcall.about) ?_ hrun (Sys.start_serves disk n) ⟨hfresh, rfl⟩
    intro s g c r d hs hinv hcall heffect
    refine Db.Session.effect hs hcall.staysOpen (fun f => HoldsJournal.fresh) ?_
      TwoFiles.observe_passive ?_ ?_ ?_ ?_ hinv heffect
    · rintro hnone rfl
      exact TwoFiles.observe_idle hnone
    · rintro id zBuf iAmt iOfst io h z rfl hh - hrc hg
      have hargs := hcall.inRange h hh
      have hpage := hcall.aligned h hh
      simp only [TwoFiles.observe, Sys.eType_handle hh, hrc]
      cases htype : h.file.eType with
      | database =>
          rw [htype] at hargs hpage
          have hwrite := hg.write_database io zBuf hargs (hpage rfl)
          simp only
          split_ifs
          · exact hwrite
          · exact hwrite
      | journal =>
          rw [htype] at hargs
          have hwrite := hg.write_journal io zBuf hargs
          simp only at hwrite ⊢
          split_ifs at hwrite ⊢
          · exact hwrite
          · exact hwrite
    · rintro id size h z rfl hh - hg
      have htruncate := hg.truncate h.file.eType hcall.inRange (hcall.aligned h hh)
      simp only [TwoFiles.observe, Sys.eType_handle hh]
      cases htype : h.file.eType with
      | database => simpa only [htype, if_true] using htruncate
      | journal => simpa only [htype, reduceCtorEq, if_false] using htruncate
    · rintro id io h z rfl hh hg
      exact hg.sync
    · rintro zPath io z rfl hrc hg
      obtain ⟨hok, hdeleted⟩ := hg.delete hcall.ideal
      simp only [TwoFiles.observe, hrc, hok, if_true]
      exact hdeleted
  exact ⟨(hinv.1.handle_db hmem).2, hinv.1.session_handle hinv.2 hmem⟩

theorem twoFileState_journal : Run (tracked Sys.step TwoFiles.observe)
    (fun sg => Sys.JournalCall [100, 98] sg.1) (Sys.start fun _ => .blank, .empty) twoFileCalls
    twoFileState := by
  refine Run.of_after (fun c hc sg => ?_) (by decide +kernel)
  have hcall := twoFileCalls_allowed c hc sg.1
  refine ⟨⟨hcall.about, hcall.inRange, ?_, hcall.staysOpen⟩, hcall.ideal⟩
  fin_cases hc
  · trivial
  · trivial
  · exact fun h hh htype => ⟨by decide, by decide⟩
  · exact fun h hh htype => ⟨by decide, by decide⟩

/-- The journal region is a file of its own, although it is stored from the
end of the blob backwards: every range inside it can be read, and every byte
that was written and not cut off, deleted or hit by a refused write reads back. -/
theorem journal_refines {n : Name} {disk : Disk} {calls : List Call} {s : Sys} {g : TwoFiles}
    (hfresh : (disk n).size = 0)
    (hrun : Run (tracked Sys.step TwoFiles.observe) (fun sg => Sys.JournalCall n sg.1)
      (Sys.start disk, .empty) calls (s, g))
    {id : Nat} {h : Handle} (hh : s.handle id = some h) (htype : h.file.eType = .journal) :
    (s.pReal h).nJournal = g.journal.size ∧
      ∀ zBuf iAmt iOfst io t r, 0 ≤ iOfst → 0 < iAmt → iOfst + iAmt ≤ g.journal.size →
        io.Ideal → s.step (.xRead id zBuf iAmt iOfst io) = some (t, r) →
        r.rc = .ok ∧ ∀ k v, 0 ≤ k → k < iAmt →
          g.journal.cell (iOfst + k) = some v → r.zBuf k = v := by
  obtain ⟨hfile, hg⟩ := journal_run hfresh hrun (Sys.handle_eq_some hh).1
  refine ⟨hg.length.symm, ?_⟩
  intro zBuf iAmt iOfst io t r hofst hamt hin hio hstep
  simp only [Sys.step, hh, Option.map_some, Option.some.injEq, Prod.mk.injEq, htype,
    hfile] at hstep
  rw [← hstep.2]
  exact hg.read hio hofst hamt hin

theorem journal_refines_two_files :
    ∃ h t r, twoFileState.1.handle 1 = some h ∧
      twoFileState.1.step (.xRead 1 (fun _ => 0) 600 700 carriedOut) = some (t, r) ∧
      r.rc = .ok ∧ r.zBuf 599 = 9 := by
  have hh : twoFileState.1.handle 1 = some ⟨1, [100, 98], ⟨true, .journal, 1⟩⟩ := by
    decide +kernel
  obtain ⟨-, hread⟩ := journal_refines rfl twoFileState_journal hh rfl
  obtain ⟨hok, hbytes⟩ := hread (fun _ => 0) 600 700 carriedOut _ _ (by decide) (by decide)
    (by decide +kernel) carriedOut_ideal rfl
  exact ⟨_, _, _, hh, rfl, hok, hbytes 599 9 (by decide) (by decide) (by decide +kernel)⟩

end SqliteFs
