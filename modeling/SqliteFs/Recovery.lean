import SqliteFs.Persistence

/-!
What `fsOpen` makes of a blob that an earlier run left behind. It takes the
last four bytes of the blob for the sign of a journal, which are the end of the
journal's header sector, while `fsDelete` clears the start of that sector. A
journal it finds is reported as large as the blob, and the space check of the
database side then has no room left for the pages to be copied back.
-/

namespace SqliteFs

open Lib

theorem durable_run {n : Name} {disk : Disk} {calls : List Call} {s : Sys}
    (hfresh : (disk n).size = 0)
    (hrun : Run Sys.next (Sys.DurableCall n) (Sys.start disk) calls s) :
    s.Serves n ∧ ∃ last, (s.db n).Related OnMedium Recorded last := by
  obtain ⟨last, htracked⟩ := Run.track lastSynced hrun 0
  obtain ⟨hs, hinv⟩ := recorded_run hfresh htracked
  exact ⟨hs, last, hinv⟩

/-- After a crash at any point, `fsOpen` reports a journal exactly when the
first four bytes of the header sector are set, provided these are all zero
exactly when the last four are. -/
theorem hot_journal_found_iff {n : Name} {disk : Disk} {calls : List Call} {s t : Sys}
    (hfresh : (disk n).size = 0)
    (hrun : Run Sys.next (Sys.DurableCall n) (Sys.start disk) calls s) {id flags : Nat}
    (htype : openType flags = .database) {io : Outcomes} (hio : io.Ideal) {r : Reply}
    (hstep : (Sys.start s.disk).step (.xOpen id n flags true io) = some (t, r)) :
    ∃ h, t.handle id = some h ∧
      let first := anySet fun k => (s.disk n).byte ((t.pReal h).nBlob - BLOCKSIZE + k)
      let last := anySet fun k => (s.disk n).byte ((t.pReal h).nBlob - 4 + k)
      ((0 < (t.pReal h).nJournal ↔ first) ↔ (first ↔ last)) := by
  obtain ⟨hs, size, hinv⟩ := durable_run hfresh hrun
  obtain ⟨-, h, hh, -, -, hcases⟩ :=
    reopened hs (onMedium_of_related hinv) (Or.inl rfl) htype hio hstep
  refine ⟨h, hh, ?_⟩
  intro first last
  rcases hcases with ⟨hempty, -, hsizes, -⟩ | ⟨himage, hsizes, -⟩
  · have hzero : ∀ x, 0 ≤ x → (s.disk n).byte x = 0 :=
      fun x hx => (s.disk n).zero_past x (hempty ▸ hx)
    have hunset : ∀ off, 0 ≤ off → ¬anySet fun k => (s.disk n).byte (off + k) := by
      rintro off hoff (hset | hset | hset | hset)
      all_goals exact hset (hzero _ (by omega))
    have hfirst : ¬first := hunset _ (by rw [hsizes]; decide)
    have hlast : ¬last := hunset _ (by rw [hsizes]; decide)
    rw [hsizes]
    simp only [hfirst, hlast, lt_self_iff_false]
  · have hfound : 0 < (t.pReal h).nJournal ↔ last := by
      have hnBlob : (t.pReal h).nBlob = (s.disk n).size := by
        rw [hsizes]
        rfl
      have hpos : 0 < (s.disk n).size := by
        rw [himage.size]
        decide
      simp only [last, hnBlob]
      rw [hsizes]
      change (0 < if tailSet (s.disk n) then (s.disk n).size else 0) ↔ tailSet (s.disk n)
      split_ifs with htail
      · simp only [htail, hpos]
      · simp only [htail, lt_self_iff_false]
    rw [hfound]
    exact Iff.comm

/-- A journal header as the pager writes it: the magic, then zeros up to the
end of the sector. -/
def journalHeader : Bytes := fun k =>
  ([0xd9, 0xd5, 0x05, 0xf9, 0x20, 0xa1, 0x63, 0xd7] : List UInt8).getD k.toNat 0

/-- One synced page of `"db"`, and a journal that starts with `header`. -/
def journalCalls (header : Bytes) : List Call :=
  [.xOpen 0 [100, 98] SQLITE_OPEN_MAIN_DB true carriedOut,
    .xWrite 0 (fun _ => 7) 512 0 carriedOut,
    .xSync 0 carriedOut,
    .xOpen 1 ([100, 98] ++ journalSuffix) 0 true carriedOut,
    .xWrite 1 header 512 0 carriedOut]

theorem journalCalls_durable (header : Bytes) :
    ∀ c ∈ journalCalls header, ∀ s, Sys.DurableCall [100, 98] s c := by
  intro c hc s
  fin_cases hc
  · exact ⟨Or.inl ⟨rfl, by decide⟩, trivial, trivial⟩
  · exact ⟨trivial, fun h hh => ⟨by decide, by decide, by split_ifs <;> decide⟩, trivial⟩
  · exact ⟨trivial, trivial, nofun⟩
  · exact ⟨Or.inr ⟨rfl, by decide⟩, trivial, trivial⟩
  · exact ⟨trivial, fun h hh => ⟨by decide, by decide, by split_ifs <;> decide⟩, trivial⟩

/-- The state in which the process is killed. -/
def journalState : Sys := after Sys.next (Sys.start fun _ => .blank) (journalCalls journalHeader)

theorem journalState_run : Run Sys.next (Sys.DurableCall [100, 98]) (Sys.start fun _ => .blank)
    (journalCalls journalHeader) journalState :=
  Run.of_after (journalCalls_durable journalHeader) (by decide +kernel)

def journalReopened : Sys :=
  after Sys.next (Sys.start journalState.disk)
    [.xOpen 5 [100, 98] SQLITE_OPEN_MAIN_DB true carriedOut]

theorem journalReopened_step : ∃ r, (Sys.start journalState.disk).step
    (.xOpen 5 [100, 98] SQLITE_OPEN_MAIN_DB true carriedOut) = some (journalReopened, r) :=
  Sys.next_eq_some.mp (after_single (by decide +kernel))

theorem journalReopened_handle :
    journalReopened.handle 5 = some ⟨5, [100, 98], ⟨true, .database, 1⟩⟩ := by
  decide +kernel

theorem hot_journal_found_iff_header :
    ∃ h, journalReopened.handle 5 = some h ∧ ¬(0 < (journalReopened.pReal h).nJournal ↔
      anySet fun k => (journalState.disk [100, 98]).byte
        ((journalReopened.pReal h).nBlob - BLOCKSIZE + k)) := by
  obtain ⟨r, hstep⟩ := journalReopened_step
  obtain ⟨h, hh, hiff⟩ :=
    hot_journal_found_iff rfl journalState_run (by decide) carriedOut_ideal hstep
  refine ⟨h, hh, fun hfound => ?_⟩
  obtain rfl := Option.some.inj (hh.symm.trans journalReopened_handle)
  exact absurd (hiff.mp hfound) (by decide +kernel)

/-- A journal whose header sector is on the medium is not found after the crash. -/
theorem hot_journal_missed :
    Run Sys.next (Sys.DurableCall [100, 98]) (Sys.start fun _ => .blank)
        (journalCalls journalHeader) journalState ∧
      (∃ r, (Sys.start journalState.disk).step
        (.xOpen 5 [100, 98] SQLITE_OPEN_MAIN_DB true carriedOut) = some (journalReopened, r)) ∧
      ∃ h, journalReopened.handle 5 = some h ∧ (journalReopened.pReal h).nJournal = 0 ∧
        anySet fun k => (journalState.disk [100, 98]).byte
          ((journalReopened.pReal h).nBlob - BLOCKSIZE + k) := by
  refine ⟨journalState_run, journalReopened_step, _, journalReopened_handle, ?_, ?_⟩
  all_goals decide +kernel

/-! ## Room for overwriting -/

/-- The record leaves the database side room for what the database holds already. -/
def Sizes.Room (z : Sizes) : Prop :=
  z.nDatabase = 0 ∨ z.nDatabase + BLOCKSIZE + z.nJournal ≤ z.nBlob

/-- No write inside the database is refused with `SQLITE_FULL`. -/
def Sys.Overwritable (n : Name) (s : Sys) : Prop :=
  ∀ z, (s.db n).sizes = some z → ∀ io zBuf iAmt iOfst, (io 0).rc ≠ .full → 0 ≤ iOfst →
    0 < iAmt → iOfst + iAmt ≤ z.nDatabase →
    (fsWrite .database z (s.disk n) io zBuf iAmt iOfst).1 ≠ .full

/-- A journal write that leaves room: it counts no more bytes than the database
leaves, or its lowest chunk would start inside the database, so it is refused. -/
def Sizes.LeavesRoom (z : Sizes) (iAmt iOfst : Int) : Prop :=
  z.nDatabase = 0 ∨ iOfst + iAmt + z.nDatabase + BLOCKSIZE ≤ z.nBlob ∨
    journalAddr z.nBlob (lastStart iOfst iAmt) < z.nDatabase + BLOCKSIZE

/-- The header records a database that fits the blob. -/
def SoundHeader (f : ParentFile) : Prop :=
  0 ≤ headerSize f ∧ headerSize f + BLOCKSIZE ≤ BLOBSIZE

/-- The calls that leave room for overwriting. An open that makes the record
has to find an empty database, or one that fits the blob and no journal. -/
def Sys.KeepsRoom (n : Name) (s : Sys) : Call → Prop
  | .xOpen _ _ _ malloc _ => (s.db n).sizes = none → malloc = true →
      headerSize (s.disk n) = 0 ∨ (SoundHeader (s.disk n) ∧ ¬tailSet (s.disk n))
  | .xWrite id _ iAmt iOfst _ => ∀ h z, s.handle id = some h → h.file.eType = .journal →
      (s.db n).sizes = some z → z.LeavesRoom iAmt iOfst
  | _ => True

/-- The widest overwrite decides. -/
theorem room_iff {z : Sizes} {f : ParentFile} (hacc : Account z f) :
    z.Room ↔ ∀ io zBuf iAmt iOfst, (io 0).rc ≠ .full → 0 ≤ iOfst → 0 < iAmt →
      iOfst + iAmt ≤ z.nDatabase → (fsWrite .database z f io zBuf iAmt iOfst).1 ≠ .full := by
  have hd := hacc.database
  constructor
  · intro hroom io zBuf iAmt iOfst hrc hofst hamt hin
    rcases fsWrite_database_cases hacc.fits f io zBuf iAmt hofst with
      ⟨hfull, -⟩ | ⟨-, -, heq⟩ | ⟨-, failure, hfail, heq⟩
    · rcases hroom with hempty | hroom
      · omega
      · omega
    · rw [heq]
      exact nofun
    · rw [heq]
      rwa [hfail] at hrc
  · intro hall
    by_cases hempty : z.nDatabase = 0
    · exact Or.inl hempty
    right
    have hlast := hall carriedOut (fun _ => 0) z.nDatabase 0 (by decide) (le_refl 0) (by omega)
      (by omega)
    rcases fsWrite_database_cases hacc.fits f carriedOut (fun _ => 0) z.nDatabase (le_refl 0) with
      ⟨-, heq⟩ | ⟨hfit, -⟩ | ⟨-, failure, hfail, -⟩
    · rw [heq] at hlast
      exact absurd rfl hlast
    · omega
    · cases hfail

namespace Sizes.Room

variable {z : Sizes} {f : ParentFile} {io : Outcomes} {zBuf : Bytes} {iAmt iOfst : Int}

theorem write_database (hroom : z.Room) (hacc : Account z f)
    (hargs : WriteArgs .database iAmt iOfst) :
    (fsWrite .database z f io zBuf iAmt iOfst).2.1.Room := by
  have hofst := hargs.ofst
  have hamt := hargs.amt
  have hd := hacc.database
  rcases fsWrite_database_cases hacc.fits f io zBuf iAmt hofst with
    ⟨-, heq⟩ | ⟨hfit, -, heq⟩ | ⟨-, failure, -, heq⟩
  · rwa [heq]
  · rw [heq]
    right
    change max z.nDatabase (iOfst + iAmt) + BLOCKSIZE + z.nJournal ≤ z.nBlob
    rcases hroom with hempty | hroom
    · omega
    · omega
  · rwa [heq]

/-- A journal write that counts leaves room exactly if it ends early enough. -/
theorem journal_ok_iff (hroom : z.Room) (hacc : Account z f)
    (hargs : WriteArgs .journal iAmt iOfst)
    (hok : (fsWrite .journal z f io zBuf iAmt iOfst).1 = .ok) :
    (fsWrite .journal z f io zBuf iAmt iOfst).2.1.Room ↔
      z.nDatabase = 0 ∨ iOfst + iAmt + z.nDatabase + BLOCKSIZE ≤ z.nBlob := by
  rcases (fsWrite_journal_cases hacc.fits f io zBuf hargs).2 with
    ⟨-, -, heq⟩ | ⟨hrefused, heq⟩
  · rw [heq]
    change z.nDatabase = 0 ∨ z.nDatabase + BLOCKSIZE + max z.nJournal (iOfst + iAmt) ≤ z.nBlob ↔ _
    rcases hroom with hempty | hroom
    · simp only [hempty, true_or]
    · omega
  · rw [heq] at hok
    exact absurd hok hrefused

theorem write_journal (hroom : z.Room) (hacc : Account z f)
    (hargs : WriteArgs .journal iAmt iOfst) (hleaves : z.LeavesRoom iAmt iOfst) :
    (fsWrite .journal z f io zBuf iAmt iOfst).2.1.Room := by
  obtain ⟨hspec, ⟨hput, -, heq⟩ | ⟨-, heq⟩⟩ :=
    fsWrite_journal_cases hacc.fits f io zBuf hargs
  · have hok : (fsWrite .journal z f io zBuf iAmt iOfst).1 = .ok := by rw [heq]
    rw [hroom.journal_ok_iff hacc hargs hok]
    rcases hleaves with hempty | hends | hlow
    · exact Or.inl hempty
    · exact Or.inr hends
    · -- a write whose lowest chunk starts in the database is not accepted
      have habove := (startsAbove_iff hargs.amt).mp (hspec.starts hput)
      exact absurd habove (not_le.mpr hlow)
  · rwa [heq]

theorem leavesRoom (hroom : z.Room) (hacc : Account z f) (hargs : WriteArgs .journal iAmt iOfst)
    (hio : io.Ideal) (hafter : (fsWrite .journal z f io zBuf iAmt iOfst).2.1.Room) :
    z.LeavesRoom iAmt iOfst := by
  rcases fsWrite_journal_rc hacc.fits f io zBuf hargs with
    ⟨hok, -⟩ | ⟨-, hbelow⟩ | ⟨k, failure, hfail, -⟩
  · rcases (hroom.journal_ok_iff hacc hargs hok).mp hafter with hempty | hends
    · exact Or.inl hempty
    · exact Or.inr (Or.inl hends)
  · refine Or.inr (Or.inr (not_le.mp fun hle => hbelow ?_))
    exact (startsAbove_iff hargs.amt).mpr hle
  · rw [hio k] at hfail
    cases hfail

theorem truncate {eType : EType} {size : Int} (hroom : z.Room) (hacc : Account z f)
    (hsize : 0 ≤ size) : (fsTruncate eType z size).Room := by
  have hd := hacc.database
  rw [fsTruncate_eq hacc hsize]
  split_ifs
  · change min z.nDatabase size = 0 ∨ min z.nDatabase size + BLOCKSIZE + z.nJournal ≤ z.nBlob
    rcases hroom with hempty | hroom
    · omega
    · omega
  · change z.nDatabase = 0 ∨ z.nDatabase + BLOCKSIZE + min z.nJournal size ≤ z.nBlob
    rcases hroom with hempty | hroom
    · exact Or.inl hempty
    · omega

theorem delete (hroom : z.Room) (hacc : Account z f) : (deleteReal z f io).2.1.Room := by
  have hfits := hacc.room
  rcases deleteReal_cases hacc io with ⟨-, heq⟩ | ⟨failure, -, heq⟩
  · rw [heq]
    right
    change z.nDatabase + BLOCKSIZE + 0 ≤ z.nBlob
    omega
  · rwa [heq]

end Sizes.Room

/-- The calls about one database, whatever the parent makes of them. -/
structure Sys.RangedCall (n : Name) (s : Sys) (c : Call) : Prop where
  about : c.About n
  inRange : s.InRange c

/-- The blob is laid out or not there yet, and the record accounts for it. -/
def Sys.LaidOut (n : Name) (s : Sys) : Prop :=
  s.Serves n ∧ (s.db n).Related (fun f _ => f.size = 0 ∨ f.size = BLOBSIZE)
    (fun z f _ => Account z f ∧ z.nBlob = BLOBSIZE) ()

theorem Account.recovered {f : ParentFile} (hsize : f.size = BLOBSIZE) (hsound : SoundHeader f) :
    Account (recovered f) f := by
  have hjournal : 0 ≤ (SqliteFs.recovered f).nJournal ∧
      (SqliteFs.recovered f).nJournal ≤ f.size := by
    simp only [SqliteFs.recovered]
    split_ifs
    · exact ⟨f.size_nonneg, le_rfl⟩
    · exact ⟨le_rfl, f.size_nonneg⟩
  have hblob : WholeBlob f.size := hsize ▸ wholeBlob_BLOBSIZE
  have hroom : headerSize f + BLOCKSIZE ≤ f.size := hsize ▸ hsound.2
  exact ⟨hblob, rfl, hsound.1, hroom, hjournal.1, hjournal.2⟩

/-- A blob that an open lays out or takes over. -/
theorem opened_cases {f : ParentFile} {io : Outcomes} (hf : f.size = 0 ∨ f.size = BLOBSIZE)
    (hok : (openReal f io).1 = .ok) :
    (f.size = 0 ∧
      (openReal f io).2 = (⟨0, 0, BLOBSIZE⟩, f.put (fun _ => 0) (BLOBSIZE - 1) 1)) ∨
      (f.size = BLOBSIZE ∧ (openReal f io).2 = (recovered f, f)) := by
  have hrange := hf
  simp only [BLOBSIZE] at hrange
  rcases openReal_cases f io (by omega) (by omega) with ⟨hempty, heq⟩ | ⟨hne, heq⟩ | ⟨hfail, -⟩
  · exact Or.inl ⟨hempty, by rw [heq]⟩
  · exact Or.inr ⟨hf.resolve_left hne, by rw [heq]⟩
  · exact absurd hok hfail

/-- What an open takes over leaves room exactly when it finds no journal or an
empty database. -/
theorem recovered_room_iff {f : ParentFile} (hsize : f.size = BLOBSIZE) (hsound : SoundHeader f) :
    (recovered f).Room ↔ headerSize f = 0 ∨ ¬tailSet f := by
  obtain ⟨hnonneg, hroom⟩ := hsound
  by_cases htail : tailSet f
  · simp only [Sizes.Room, recovered, htail, if_true, not_true_eq_false, or_false, BLOCKSIZE]
    omega
  · simp only [Sizes.Room, recovered, htail, if_false, not_false_eq_true, or_true, iff_true]
    right
    omega

theorem opened_room_iff {f : ParentFile} {io : Outcomes} (hf : f.size = 0 ∨ f.size = BLOBSIZE)
    (hsound : SoundHeader f) (hok : (openReal f io).1 = .ok) :
    (openReal f io).2.1.Room ↔ headerSize f = 0 ∨ ¬tailSet f := by
  rcases opened_cases hf hok with ⟨hempty, heq⟩ | ⟨hsize, heq⟩
  · rw [heq]
    simp only [Sizes.Room, headerSize_empty hempty, true_or]
  · rw [heq]
    exact recovered_room_iff hsize hsound

/-- The header that an open which keeps room finds. -/
theorem soundHeader_of_empty {f : ParentFile} (h : headerSize f = 0) : SoundHeader f := by
  simp only [SoundHeader, h]
  decide

/-- The record of the database, if there is one, leaves room. -/
def Db.Roomy (d : Db) : Prop := ∀ z, d.sizes = some z → z.Room

theorem Sys.LaidOut.account {n : Name} {s : Sys} (hs : s.LaidOut n) {z : Sizes}
    (hsizes : (s.db n).sizes = some z) : Account z (s.disk n) := by
  have hinv := hs.2
  unfold Db.Related at hinv
  rw [hsizes] at hinv
  exact hinv.1

theorem Sys.LaidOut.file_size {n : Name} {s : Sys} (hs : s.LaidOut n)
    (hsizes : (s.db n).sizes = none) : (s.disk n).size = 0 ∨ (s.disk n).size = BLOBSIZE := by
  have hinv := hs.2
  unfold Db.Related at hinv
  rw [hsizes] at hinv
  exact hinv

theorem overwritable_iff {n : Name} {s : Sys} (hs : s.LaidOut n) :
    s.Overwritable n ↔ (s.db n).Roomy := by
  constructor
  · intro hover z hsizes
    exact (room_iff (hs.account hsizes)).mpr (hover z hsizes)
  · intro hroomy z hsizes
    exact (room_iff (hs.account hsizes)).mp (hroomy z hsizes)

/-- An open finds a header that is sound. -/
def Sys.FindsSound (n : Name) (s : Sys) : Call → Prop
  | .xOpen _ _ _ malloc _ => (s.db n).sizes = none → malloc = true → SoundHeader (s.disk n)
  | _ => True

theorem Sys.KeepsRoom.findsSound {n : Name} {s : Sys} {c : Call} (h : s.KeepsRoom n c) :
    s.FindsSound n c := by
  cases c with
  | xOpen =>
      intro hclosed hmalloc
      rcases h hclosed hmalloc with hempty | ⟨hsound, -⟩
      · exact soundHeader_of_empty hempty
      · exact hsound
  | _ => trivial

/-- The account survives every call but an open that finds an unsound header. -/
theorem Sys.LaidOut.next {n : Name} {s t : Sys} {c : Call} (hs : s.LaidOut n)
    (hcall : s.RangedCall n c) (hsound : s.FindsSound n c) (hnext : s.next c = some t) :
    t.LaidOut n := by
  obtain ⟨r, hstep⟩ := Sys.next_eq_some.mp hnext
  have heffect := Sys.step_effect hs.1 hcall.about hstep
  refine ⟨hs.1.step hcall.about hstep, ?_⟩
  refine Db.Related.effect hs.1 (g := ()) (fun _ => id) ?_ ?_ ?_ (fun _ => rfl) ?_ ?_ ?_ ?_ hs.2
    heffect
  · rintro id zName flags io rfl hclosed hsize hok
    rcases opened_cases hsize hok with ⟨hempty, heq⟩ | ⟨hfull, heq⟩
    · rw [heq]
      exact ⟨Account.fresh hempty, rfl⟩
    · rw [heq]
      exact ⟨Account.recovered hfull (hsound hclosed rfl), hfull⟩
  · intro io hsize hfail
    have hrange := hsize
    simp only [BLOBSIZE] at hrange
    rcases openReal_cases (s.disk n) io (by omega) (by omega) with
      ⟨-, heq⟩ | ⟨-, heq⟩ | ⟨-, hkept, -⟩
    · rw [heq] at hfail
      exact absurd rfl hfail
    · rw [heq] at hfail
      exact absurd rfl hfail
    · rwa [hkept]
  · rintro - z ⟨hacc, hblob⟩
    exact Or.inr (hacc.size.trans hblob)
  · rintro id zBuf iAmt iOfst io h z rfl hh - - ⟨hacc, hblob⟩
    obtain ⟨hafter, hkept⟩ := hacc.write io zBuf (hcall.inRange h hh)
    exact ⟨hafter, hkept.trans hblob⟩
  · rintro id size h z rfl hh - ⟨hacc, hblob⟩
    obtain ⟨hafter, hkept⟩ := hacc.truncate h.file.eType hcall.inRange
    exact ⟨hafter, hkept.trans hblob⟩
  · rintro id io h z rfl hh - ⟨hacc, hblob⟩
    exact ⟨hacc.sync, hblob⟩
  · rintro zPath io z rfl - ⟨hacc, hblob⟩
    obtain ⟨hafter, hkept, -⟩ := hacc.delete io
    exact ⟨hafter, hkept.trans hblob⟩

/-- What one call does to the room, both ways. -/
theorem Effect.roomy {n : Name} {s : Sys} {c : Call} {r : Reply} {d : Db} (hs : s.LaidOut n)
    (hcall : s.RangedCall n c) (hsound : s.FindsSound n c) (hroomy : (s.db n).Roomy)
    (heffect : Effect n s c r d) :
    (s.KeepsRoom n c → d.Roomy) ∧ (c.Ideal → d.Roomy → s.KeepsRoom n c) := by
  cases heffect with
  | @attach id zName flags io r hclosed hrc =>
      have hsize := hs.file_size hclosed
      have hheader : SoundHeader (s.disk n) := hsound hclosed rfl
      constructor
      · intro hkeep z hz
        simp only at hz
        split_ifs at hz with hok
        obtain rfl := Option.some.inj hz
        exact (opened_room_iff hsize hheader hok).mpr ((hkeep hclosed rfl).imp_right And.right)
      · intro hio hafter _ _
        have hrange := hsize
        simp only [BLOBSIZE] at hrange
        have hok := openReal_ideal hio (f := s.disk n) (by omega) (by omega)
        have hroom := (opened_room_iff hsize hheader hok).mp (hafter _ (if_pos hok))
        exact hroom.imp_right fun htail => ⟨hheader, htail⟩
  | share hkept =>
      refine ⟨fun _ => hroomy, fun _ _ hclosed hmalloc => ?_⟩
      rw [hkept hclosed] at hmalloc
      cases hmalloc
  | @write id zBuf iAmt iOfst io r h z hh hsizes hrc =>
      have hacc := hs.account hsizes
      have hroom := hroomy z hsizes
      have hargs := hcall.inRange h hh
      constructor
      · intro hkeep z' hz'
        obtain rfl := Option.some.inj hz'
        cases htype : h.file.eType with
        | database =>
            rw [htype] at hargs
            exact hroom.write_database hacc hargs
        | journal =>
            rw [htype] at hargs
            exact hroom.write_journal hacc hargs (hkeep h z hh htype hsizes)
      · intro hio hafter h' z' hh' htype hsizes'
        obtain rfl := Option.some.inj (hh.symm.trans hh')
        obtain rfl := Option.some.inj (hsizes.symm.trans hsizes')
        rw [htype] at hargs hafter
        exact hroom.leavesRoom hacc hargs hio (hafter _ rfl)
  | truncate hh hsizes =>
      refine ⟨fun _ z' hz' => ?_, fun _ _ => trivial⟩
      obtain rfl := Option.some.inj hz'
      exact (hroomy _ hsizes).truncate (hs.account hsizes) hcall.inRange
  | sync hh hsizes hrc =>
      refine ⟨fun _ z' hz' => ?_, fun _ _ => trivial⟩
      obtain rfl := Option.some.inj hz'
      exact hroomy _ hsizes
  | delete hsizes hrc =>
      refine ⟨fun _ z' hz' => ?_, fun _ _ => trivial⟩
      obtain rfl := Option.some.inj hz'
      exact (hroomy _ hsizes).delete (hs.account hsizes)
  | detach | stop => exact ⟨fun _ _ hz => (nomatch hz), fun _ _ => trivial⟩
  | _ => exact ⟨fun _ => hroomy, fun _ _ => trivial⟩

/-- One call between states that leave room, both ways. -/
theorem Sys.LaidOut.overwritable_step {n : Name} {s t : Sys} {c : Call} (hs : s.LaidOut n)
    (hcall : s.RangedCall n c) (hsound : s.FindsSound n c) (hover : s.Overwritable n)
    (hnext : s.next c = some t) :
    (s.KeepsRoom n c → t.Overwritable n) ∧ (c.Ideal → t.Overwritable n → s.KeepsRoom n c) := by
  obtain ⟨r, hstep⟩ := Sys.next_eq_some.mp hnext
  have hroomy := (Sys.step_effect hs.1 hcall.about hstep).roomy hs hcall hsound
    ((overwritable_iff hs).mp hover)
  rwa [overwritable_iff (hs.next hcall hsound hnext)]

/-- The header of a medium that carried every sync out is sound. -/
theorem OnMedium.soundHeader {f : ParentFile} {last : Int} (h : OnMedium f last) :
    SoundHeader f := by
  rcases h with ⟨hempty, -⟩ | himage
  · exact soundHeader_of_empty (headerSize_empty hempty)
  · simp only [SoundHeader, himage.header]
    exact ⟨himage.nonneg, himage.room⟩

/-- In a run all of whose calls keep room no write inside the database is ever
refused, and where the medium carries everything out, in no other run. -/
theorem overwrite_not_full {n : Name} {disk : Disk} {calls : List Call} {s : Sys}
    (hfresh : (disk n).size = 0)
    (hrun : Run Sys.next (Sys.RangedCall n) (Sys.start disk) calls s) :
    (Along Sys.next (Sys.KeepsRoom n) (Sys.start disk) calls →
        Throughout Sys.next (Sys.Overwritable n) (Sys.start disk) calls) ∧
      ((∀ c ∈ calls, c.Ideal) →
        Throughout Sys.next (Sys.Overwritable n) (Sys.start disk) calls →
        Along Sys.next (Sys.KeepsRoom n) (Sys.start disk) calls) := by
  have hstart : (Sys.start disk).LaidOut n := ⟨Sys.start_serves disk n, Or.inl hfresh⟩
  constructor
  · intro halong
    have hkeep : ∀ s c t, s.LaidOut n → (s.RangedCall n c ∧ s.KeepsRoom n c) →
        Sys.next s c = some t → t.LaidOut n :=
      fun s c t hs hcall hnext => hs.next hcall.1 hcall.2.findsSound hnext
    apply Along.throughout hkeep ?_ (hrun.along halong) hstart ?_ halong
    · intro s c t hs hover hcall hnext hkeeps
      exact (hs.overwritable_step hcall.1 hkeeps.findsSound hover hnext).1 hkeeps
    · intro z hsizes
      cases hsizes
  · intro hideal
    -- where every sync is carried out the header stays sound
    have hfinds : ∀ (s : Sys) c, (∃ last, (s.db n).Related OnMedium Recorded last) →
        s.FindsSound n c := by
      rintro s c ⟨last, hinv⟩
      cases c with
      | xOpen => exact fun _ _ => (onMedium_of_related hinv).soundHeader
      | _ => trivial
    have hkeep : ∀ s c t, (s.LaidOut n ∧ ∃ last, (s.db n).Related OnMedium Recorded last) →
        (s.RangedCall n c ∧ c.Ideal) → Sys.next s c = some t →
        t.LaidOut n ∧ ∃ last, (t.db n).Related OnMedium Recorded last := by
      rintro s c t ⟨hs, hrecorded⟩ ⟨hcall, hio⟩ hnext
      refine ⟨hs.next hcall (hfinds s c hrecorded) hnext, ?_⟩
      obtain ⟨last, hinv⟩ := hrecorded
      obtain ⟨r, hstep⟩ := Sys.next_eq_some.mp hnext
      exact ⟨_, recorded_keeps hs.1 ⟨hcall.about, hcall.inRange, hio.headerAtomic⟩ hinv
        (Sys.step_effect hs.1 hcall.about hstep)⟩
    apply Throughout.along hkeep ?_ (hrun.restrict hideal) ⟨hstart, 0, Or.inl ⟨hfresh, rfl⟩⟩
    · rintro s c t ⟨hs, hrecorded⟩ hover ⟨hcall, hio⟩ hnext hafter
      exact (hs.overwritable_step hcall (hfinds s c hrecorded) hover hnext).2 hio hafter

theorem overwrite_not_full_open :
    Throughout Sys.next (Sys.Overwritable [100, 98]) (Sys.start fun _ => .blank)
      [.xOpen 0 [100, 98] SQLITE_OPEN_MAIN_DB true carriedOut, .xSync 0 carriedOut] := by
  have hrun : Run Sys.next (Sys.RangedCall [100, 98]) (Sys.start fun _ => .blank)
      [.xOpen 0 [100, 98] SQLITE_OPEN_MAIN_DB true carriedOut, .xSync 0 carriedOut]
      (after Sys.next (Sys.start fun _ => .blank)
        [.xOpen 0 [100, 98] SQLITE_OPEN_MAIN_DB true carriedOut, .xSync 0 carriedOut]) := by
    refine Run.of_after (fun c hc s => ?_) (by decide +kernel)
    fin_cases hc
    · exact ⟨Or.inl ⟨rfl, by decide⟩, trivial⟩
    · exact ⟨trivial, trivial⟩
  apply (overwrite_not_full rfl hrun).1
  exact ⟨fun _ _ => Or.inl (by decide), fun _ _ => ⟨trivial, fun _ _ => trivial⟩⟩

/-- A page of the database and a journal whose last four header bytes are set,
a crash, and the open that finds this journal. -/
def hotCalls : List Call :=
  journalCalls (fun _ => 9) ++ [.stop, .xOpen 5 [100, 98] SQLITE_OPEN_MAIN_DB true carriedOut]

def hotState : Sys := after Sys.next (Sys.start fun _ => .blank) hotCalls

theorem hotState_run :
    Run Sys.next (Sys.DurableCall [100, 98]) (Sys.start fun _ => .blank) hotCalls hotState := by
  refine Run.of_after (fun c hc s => ?_) (by decide +kernel)
  rcases List.mem_append.mp hc with hbefore | hafter
  · exact journalCalls_durable _ c hbefore s
  · fin_cases hafter
    · exact ⟨trivial, trivial, trivial⟩
    · exact ⟨Or.inl ⟨rfl, by decide⟩, trivial, trivial⟩

/-- The page cannot be copied back from the journal. -/
theorem hot_journal_blocks_overwrite :
    Run Sys.next (Sys.DurableCall [100, 98]) (Sys.start fun _ => .blank) hotCalls hotState ∧
      ∃ h, hotState.handle 5 = some h ∧ (hotState.pReal h).nDatabase = 512 ∧
        (hotState.step (.xWrite 5 (fun _ => 7) 512 0 carriedOut)).map (fun out => out.2.rc) =
          some .full := by
  have hh : hotState.handle 5 = some ⟨5, [100, 98], ⟨true, .database, 1⟩⟩ := by decide +kernel
  refine ⟨hotState_run, _, hh, ?_, ?_⟩
  all_goals decide +kernel

end SqliteFs
