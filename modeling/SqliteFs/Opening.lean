import SqliteFs.OneDatabase

/-!
Opening a file that exists. `fsOpen` takes the database size from block 0 and
cuts the file size to an `int`; it tests neither. So the record is right about
the file exactly when block 0 is, and then every later database transfer stays
between block 0 and the end of the blob.
-/

namespace SqliteFs

open Lib

/-- A record of a file of `size` bytes with the database inside the blob. -/
structure Sizes.Validated (z : Sizes) (size : Int) : Prop where
  database : 0 ≤ z.nDatabase
  room : z.nDatabase + BLOCKSIZE ≤ z.nBlob
  blob : z.nBlob = size

/-- Block 0 tells of a database that fits into the file, and the file size is an `int`. -/
def ParentFile.Consistent (f : ParentFile) : Prop :=
  0 ≤ headerSize f ∧ headerSize f + BLOCKSIZE ≤ f.size ∧ f.size < 2147483648

/-- What `fsOpen` takes from any file that it opens and that is not empty. -/
theorem openReal_used {f : ParentFile} {io : Outcomes} (hne : f.size ≠ 0)
    (hok : (openReal f io).1 = .ok) :
    (openReal f io).2.1.nDatabase = headerSize f ∧ (openReal f io).2.1.nBlob = int32 f.size ∧
      ((openReal f io).2.1.nJournal = 0 ∨ (openReal f io).2.1.nJournal = int32 f.size) ∧
      (openReal f io).2.2 = f := by
  unfold openReal at hok ⊢
  have h0 : ¬(io 0).rc ≠ .ok := by
    intro hfail
    rw [if_pos hfail] at hok
    exact hfail hok
  simp only [if_neg h0] at hok ⊢
  have h1 : ¬(f.xFileSize (io 1)).1 ≠ .ok := by
    intro hfail
    rw [if_pos hfail] at hok
    exact hfail hok
  have hused : ¬(f.xFileSize (io 1)).2 = 0 := hne
  simp only [if_neg h1, if_neg hused, readSizes] at hok ⊢
  cases h2 : io 2 with
  | fails failure =>
      simp only [ParentFile.xRead, h2, failure.rc_ne_ok, if_false] at hok
  | done =>
      by_cases hinside : 0 + 4 ≤ f.size
      · simp only [ParentFile.xRead_inside (le_refl 0) hinside, if_true, zero_add,
          decodeSize_overlay, headerSize, and_true, ParentFile.xFileSize]
        split_ifs
        · exact ⟨rfl, rfl, Or.inr rfl⟩
        · exact ⟨rfl, rfl, Or.inl rfl⟩
      · have hneg : ¬(0 : Int) < 0 := lt_irrefl 0
        simp only [ParentFile.xRead, h2, if_neg hneg, if_neg hinside, reduceCtorEq,
          if_false] at hok

theorem openReal_validated_iff {f : ParentFile} {io : Outcomes} (hne : f.size ≠ 0)
    (hok : (openReal f io).1 = .ok) :
    (openReal f io).2.1.Validated f.size ↔ f.Consistent := by
  obtain ⟨hdb, hblob, -, -⟩ := openReal_used hne hok
  have hrange := int32_range f.size
  have hsize := f.size_nonneg
  constructor
  · rintro ⟨hlo, hroom, heq⟩
    rw [hdb] at hlo
    rw [hdb, heq] at hroom
    rw [← hblob, heq] at hrange
    exact ⟨hlo, hroom, hrange.2⟩
  · rintro ⟨hlo, hroom, hlt⟩
    rw [int32_of_bounds (by omega) hlt] at hblob
    have hend : (openReal f io).2.1.nDatabase + BLOCKSIZE = headerSize f + BLOCKSIZE :=
      congrArg (· + BLOCKSIZE) hdb
    exact ⟨hlo.trans_eq hdb.symm, hend.trans_le (hroom.trans_eq hblob.symm), hblob⟩

/-! ## Transfers through a handle of such a record -/

/-- The transfer at `off` stays behind block 0 and before the end of the blob. -/
def Sizes.Inside (z : Sizes) (iAmt off : Int) : Prop := BLOCKSIZE ≤ off ∧ off + iAmt ≤ z.nBlob

/-- A database read below the end of the database is one parent read inside the blob. -/
def Sizes.ReadsInside (z : Sizes) (f : ParentFile) : Prop :=
  ∀ io zBuf iAmt iOfst, 0 ≤ iOfst → iOfst + iAmt ≤ z.nDatabase →
    fsRead .database z f io zBuf iAmt iOfst = f.xRead (io 0) zBuf iAmt (databaseAddr iOfst) ∧
      z.Inside iAmt (databaseAddr iOfst)

/-- A database write whose end the 64-bit sum can hold is refused, or it is one
parent write inside the blob. -/
def Sizes.WritesInside (z : Sizes) (f : ParentFile) : Prop :=
  ∀ io zBuf iAmt iOfst, 0 ≤ iOfst → iAmt + iOfst + BLOCKSIZE < 9223372036854775808 →
    fsWrite .database z f io zBuf iAmt iOfst = (.full, z, f) ∨
      ((fsWrite .database z f io zBuf iAmt iOfst).1 =
          (f.xWrite (io 0) zBuf iAmt (databaseAddr iOfst)).1 ∧
        (fsWrite .database z f io zBuf iAmt iOfst).2.2 =
          (f.xWrite (io 0) zBuf iAmt (databaseAddr iOfst)).2 ∧
        z.Inside iAmt (databaseAddr iOfst))

/-- What stays true of a validated record. -/
structure Sizes.Sound (size : Int) (z : Sizes) (_ : ParentFile) (_ : Unit) : Prop where
  validated : z.Validated size
  sizeLt : size < 2147483648
  journal : 0 ≤ z.nJournal
  journalLt : z.nJournal < 2147483648

namespace Sizes.Sound

variable {z : Sizes} {f f' : ParentFile} {size : Int}

/-- The space check computes the space there is. -/
theorem space (hz : z.Sound size f ()) : int32 (z.nBlob - z.nJournal) = z.nBlob - z.nJournal := by
  obtain ⟨⟨hdb, hroom, hblob⟩, hlt, hjournal, hjournalLt⟩ := hz
  simp only [BLOCKSIZE] at hroom
  exact int32_of_bounds (by omega) (by omega)

theorem write (hz : z.Sound size f ()) {eType : EType} {io : Outcomes} {zBuf : Bytes}
    {iAmt iOfst : Int} (hend : eType = .journal → iOfst + iAmt < 2147483648) :
    (fsWrite eType z f io zBuf iAmt iOfst).2.1.Sound size f' () := by
  have hspace := hz.space
  obtain ⟨⟨hdb, hroom, hblob⟩, hlt, hjournal, hjournalLt⟩ := hz
  rcases fsWrite_sizes eType z f io zBuf iAmt iOfst with heq | ⟨-, hfit, heq⟩ | ⟨htype, heq⟩
  · rw [heq]
    exact ⟨⟨hdb, hroom, hblob⟩, hlt, hjournal, hjournalLt⟩
  · rw [hspace] at hfit
    simp only [BLOCKSIZE] at hroom hfit
    have hmax : int32 (max z.nDatabase (iAmt + iOfst)) = max z.nDatabase (iAmt + iOfst) :=
      int32_of_bounds (by omega) (by omega)
    rw [heq, hmax]
    refine ⟨⟨le_max_of_le_left hdb, ?_, hblob⟩, hlt, hjournal, hjournalLt⟩
    simp only [BLOCKSIZE]
    omega
  · have hend := hend htype
    have hmax : int32 (max z.nJournal (iAmt + iOfst)) = max z.nJournal (iAmt + iOfst) :=
      int32_of_bounds (by omega) (by omega)
    rw [heq, hmax]
    refine ⟨⟨hdb, hroom, hblob⟩, hlt, le_max_of_le_left hjournal, ?_⟩
    simp only
    omega

theorem truncate (hz : z.Sound size f ()) {eType : EType} {newSize : Int} (hnew : 0 ≤ newSize) :
    (fsTruncate eType z newSize).Sound size f' () := by
  obtain ⟨⟨hdb, hroom, hblob⟩, hlt, hjournal, hjournalLt⟩ := hz
  simp only [BLOCKSIZE] at hroom
  unfold fsTruncate
  rw [int32_of_bounds (x := min z.nDatabase newSize) (by omega) (by omega),
    int32_of_bounds (x := min z.nJournal newSize) (by omega) (by omega)]
  split_ifs
  · refine ⟨⟨le_min hdb hnew, ?_, hblob⟩, hlt, hjournal, hjournalLt⟩
    simp only [BLOCKSIZE]
    omega
  · refine ⟨⟨hdb, hroom, hblob⟩, hlt, le_min hjournal hnew, ?_⟩
    simp only
    omega

theorem delete (hz : z.Sound size f ()) {io : Outcomes} :
    (deleteReal z f io).2.1.Sound size f' () := by
  obtain ⟨hvalid, hlt, hjournal, hjournalLt⟩ := hz
  rcases deleteReal_sizes z f io with heq | heq
  · rw [heq]
    exact ⟨hvalid, hlt, hjournal, hjournalLt⟩
  · rw [heq]
    exact ⟨⟨hvalid.database, hvalid.room, hvalid.blob⟩, hlt, le_refl 0,
      show (0 : Int) < 2147483648 by decide⟩

theorem readsInside (hz : z.Sound size f ()) : z.ReadsInside f := by
  intro io zBuf iAmt iOfst hofst hend
  have hroom := hz.validated.room
  refine ⟨?_, ?_⟩
  · unfold fsRead
    rw [if_neg (by simp only [reduceCtorEq, false_and, or_false, true_and]; omega), if_pos rfl]
  · simp only [Sizes.Inside, databaseAddr, BLOCKSIZE] at *
    omega

theorem writesInside (hz : z.Sound size f ()) : z.WritesInside f := by
  intro io zBuf iAmt iOfst hofst _
  have hspace := hz.space
  have hjournal := hz.journal
  unfold fsWrite
  rw [if_pos rfl, hspace]
  by_cases hfull : iAmt + iOfst + BLOCKSIZE > z.nBlob - z.nJournal
  · exact Or.inl (by rw [if_pos hfull])
  · rw [if_neg hfull]
    refine Or.inr ⟨?_, ?_, ?_⟩
    · simp only
      split_ifs
      · rfl
      · rfl
    · simp only
      split_ifs
      · rfl
      · rfl
    · simp only [Sizes.Inside, databaseAddr, BLOCKSIZE] at *
      omega

end Sizes.Sound

/-! ## The record of a file that was opened -/

/-- The calls after an open: journal writes end below 2^31, files are not
truncated to a negative size, and the database stays open. -/
structure Sys.LaterCall (n : Name) (s : Sys) (c : Call) : Prop where
  about : c.About n
  journalEnd : ∀ id zBuf iAmt iOfst io h, c = .xWrite id zBuf iAmt iOfst io →
    s.handle id = some h → h.file.eType = .journal → iOfst + iAmt < 2147483648
  truncated : ∀ id size, c = .xTruncate id size → 0 ≤ size
  staysOpen : s.StaysOpen c

/-- A record that is sound stays so for as long as the database stays open. -/
theorem sound_run {n : Name} {size : Int} {calls : List Call} {t u : Sys} (ht : t.Serves n)
    {h : Handle} (hmem : h ∈ t.handles) (hsound : (t.pReal h).toSizes.Sound size (t.disk n) ())
    (hrun : Run Sys.next (Sys.LaterCall n) t calls u) :
    ∀ h' ∈ u.handles, (u.pReal h').toSizes.Sound size (u.disk n) () := by
  have hstart : (t.db n).Related (fun _ _ => False) (Sizes.Sound size) () := by
    rw [(ht.handle_db hmem).1]
    exact hsound
  have hend : u.Serves n ∧ (u.db n).Related (fun _ _ => False) (Sizes.Sound size) () := by
    apply hrun.invariant _ (Sys.next_keeps
      (fun d => d.Related (fun _ _ => False) (Sizes.Sound size) ())
      (fun _ _ hcall => hcall.about) ?_) ⟨ht, hstart⟩
    intro s c r d hs hinv hcall heffect
    apply Db.Related.effect hs (g := ()) (fun _ => id) (fun _ _ _ _ _ _ => False.elim)
      (fun _ => False.elim)
      (fun hends => absurd hends hcall.staysOpen.not_ends) (fun _ => rfl) ?_ ?_ ?_ ?_ hinv heffect
    · rintro id zBuf iAmt iOfst io h z rfl hh - - hz
      exact hz.write fun htype => hcall.journalEnd _ _ _ _ _ _ rfl hh htype
    · rintro id newSize h z rfl - - hz
      exact hz.truncate (hcall.truncated _ _ rfl)
    · rintro id io h z rfl - - ⟨hvalid, hlt, hjournal, hjournalLt⟩
      exact ⟨hvalid, hlt, hjournal, hjournalLt⟩
    · rintro zPath io z rfl - hz
      exact hz.delete
  intro h' hmem'
  obtain ⟨hu, hlast⟩ := hend
  rw [(hu.handle_db hmem').1] at hlast
  exact hlast

/-- An open of a file of the database that is answered `SQLITE_OK` opened the file. -/
theorem Sys.Serves.opened_ok {s t : Sys} {n : Name} (hs : s.Serves n) (hnone : s.handles = [])
    {id flags : Nat} {malloc : Bool} {io : Outcomes} {r : Reply}
    (hstep : s.step (.xOpen id n flags malloc io) = some (t, r)) (hok : r.rc = .ok) :
    malloc = true ∧ (openReal (s.disk n) io).1 = .ok := by
  rcases hs.open_cases hnone hstep with ⟨hmalloc, hopened, -⟩ | ⟨-, hfail, hrc⟩ | ⟨-, hrc⟩
  · exact ⟨hmalloc, hopened⟩
  · exact absurd (hrc.symm.trans hok) hfail
  · rw [hrc] at hok
    cases hok

/-- In whatever history, opening a database from a file that is not empty gives
a validated record exactly when the file is consistent, and from such a record
every later transfer of the database stays inside the blob. -/
theorem opening_validates_iff {n : Name} {disk : Disk} {calls : List Call} {s t : Sys}
    (hrun : Run Sys.next (fun _ c => c.About n) (Sys.start disk) calls s)
    (hnone : s.handles = []) (hsize : 0 < (s.disk n).size) {id flags : Nat} {malloc : Bool}
    {io : Outcomes} {r : Reply} (htype : openType flags = .database)
    (hstep : s.step (.xOpen id n flags malloc io) = some (t, r)) (hok : r.rc = .ok) :
    ∃ h, t.handle id = some h ∧
      (t.pReal h).nDatabase = headerSize (s.disk n) ∧
      (t.pReal h).nBlob = int32 (s.disk n).size ∧
      ((t.pReal h).toSizes.Validated (s.disk n).size ↔ (s.disk n).Consistent) ∧
      ((s.disk n).Consistent → ∀ later u, Run Sys.next (Sys.LaterCall n) t later u →
        ∀ h' ∈ u.handles, (u.pReal h').nBlob = (s.disk n).size ∧
          (u.pReal h').toSizes.ReadsInside (u.disk n) ∧
          (u.pReal h').toSizes.WritesInside (u.disk n)) := by
  have hs : s.Serves n := by
    apply hrun.invariant (fun s => s.Serves n) ?_ (Sys.start_serves disk n)
    exact fun s c t hs habout hnext => hs.next habout hnext
  have hne : (s.disk n).size ≠ 0 := hsize.ne'
  obtain ⟨rfl, hopened⟩ := hs.opened_ok hnone hstep hok
  obtain ⟨-, h, hh, -, hsizes, hfile⟩ := hs.opened hnone htype hopened hstep
  have ht : t.Serves n := hs.step (c := .xOpen id n flags true io)
    (Or.inl ⟨rfl, htype⟩) hstep
  obtain ⟨hdb, hblob, hjournal, hkept⟩ := openReal_used hne hopened
  have hvalid := openReal_validated_iff hne hopened
  rw [← hsizes] at hdb hblob hjournal hvalid
  refine ⟨h, hh, hdb, hblob, hvalid, ?_⟩
  intro hconsistent later u hlater h' hmem'
  have hlt := hconsistent.2.2
  have hcut : int32 (s.disk n).size = (s.disk n).size := int32_of_bounds (by omega) hlt
  rw [hcut] at hjournal
  have hsound : (t.pReal h).toSizes.Sound (s.disk n).size (t.disk n) () := by
    refine ⟨hvalid.mpr hconsistent, hlt, ?_, ?_⟩
    all_goals
      rcases hjournal with heq | heq
      · omega
      · omega
  have hlast := sound_run ht (Sys.handle_eq_some hh).1 hsound hlater h' hmem'
  exact ⟨hlast.validated.blob, hlast.readsInside, hlast.writesInside⟩

/-- A file of two blocks whose first byte is `b`. -/
def twoBlocks (b : UInt8) : ParentFile where
  size := 1024
  byte := fun i => if i = 0 then b else 0
  size_nonneg := by decide
  zero_past := fun i hi => if_neg (by omega)

/-- The database `"db"` opened from such a file. -/
def openTwoBlocks (b : UInt8) : Option (Sys × Reply) :=
  (Sys.start fun _ => twoBlocks b).step (.xOpen 0 [100, 98] SQLITE_OPEN_MAIN_DB true carriedOut)

def databaseHandle : Handle := ⟨0, [100, 98], ⟨true, .database, 1⟩⟩

theorem opening_validates_iff_empty : ∃ t r, openTwoBlocks 0 = some (t, r) ∧
    ∃ h, t.handle 0 = some h ∧ (t.pReal h).toSizes.Validated 1024 := by
  have hok : (openTwoBlocks 0).map (fun out => out.2.rc) = some .ok := by decide +kernel
  obtain ⟨⟨t, r⟩, hstep, hrc⟩ := Option.map_eq_some_iff.mp hok
  obtain ⟨h, hh, -, -, hvalid, -⟩ := opening_validates_iff (.nil _) rfl (by decide) (by decide)
    hstep hrc
  exact ⟨t, r, hstep, h, hh, hvalid.mpr (by unfold ParentFile.Consistent; decide +kernel)⟩

/-- Block 0 tells of 2^30 bytes: the open is answered `SQLITE_OK`, and a read
in range lies behind the end of the blob. -/
theorem damaged_file_opened : ∃ t r, openTwoBlocks 64 = some (t, r) ∧ r.rc = .ok ∧
    t.handle 0 = some databaseHandle ∧
    ¬(t.pReal databaseHandle).toSizes.Validated 1024 ∧
    4096 + 1 ≤ (t.pReal databaseHandle).nDatabase ∧
    ¬(t.pReal databaseHandle).toSizes.Inside 1 (databaseAddr 4096) := by
  have hanswer : (openTwoBlocks 64).map (fun out => (out.2.rc, out.1.handle 0,
      (out.1.pReal databaseHandle).toSizes)) =
      some (.ok, some databaseHandle, ⟨1073741824, 0, 1024⟩) := by decide +kernel
  obtain ⟨⟨t, r⟩, hstep, heq⟩ := Option.map_eq_some_iff.mp hanswer
  rw [Prod.ext_iff, Prod.ext_iff] at heq
  obtain ⟨hrc, hh, hsizes⟩ := heq
  simp only at hrc hh hsizes
  refine ⟨t, r, hstep, hrc, hh, ?_, ?_, ?_⟩
  · intro hvalid
    have hroom := hvalid.room
    rw [hsizes] at hroom
    exact absurd hroom (by decide)
  · rw [hsizes]
    decide
  · intro hinside
    have hend := hinside.2
    rw [hsizes] at hend
    exact absurd hend (by decide)

end SqliteFs
