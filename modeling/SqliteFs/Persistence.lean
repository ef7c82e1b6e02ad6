import SqliteFs.TwoFiles

/-!
What the medium keeps. Runs may now fail in the parent, close every handle,
and be killed and started again at any point. The four bytes of block 0 follow
the database size of the last sync through the database handle, and that is
what the next open finds.
-/

namespace SqliteFs

open Lib

/-- A blob of the full size whose header records the database size `last`. -/
structure Image (f : ParentFile) (last : Int) : Prop where
  size : f.size = BLOBSIZE
  header : headerSize f = last
  nonneg : 0 ≤ last
  room : last + BLOCKSIZE ≤ BLOBSIZE

/-- The parent file while no record accounts for it: not laid out yet, or a blob. -/
def OnMedium (f : ParentFile) (last : Int) : Prop := (f.size = 0 ∧ last = 0) ∨ Image f last

/-- A record that accounts for a blob whose header records `last`. -/
structure Recorded (z : Sizes) (f : ParentFile) (last : Int) : Prop extends Account z f where
  nBlob_eq : z.nBlob = BLOBSIZE
  image : Image f last

theorem headerSize_congr {f f' : ParentFile} (h : ∀ k, 0 ≤ k → k < 4 → f'.byte k = f.byte k) :
    headerSize f' = headerSize f :=
  decodeSize_congr h

/-- The header of a file that is not laid out yet decodes to 0. -/
theorem headerSize_empty {f : ParentFile} (hsize : f.size = 0) : headerSize f = 0 := by
  have hzero : ∀ k, 0 ≤ k → f.byte k = 0 := fun k hk => f.zero_past k (hsize ▸ hk)
  unfold headerSize decodeSize
  rw [hzero 0 (by decide), hzero 1 (by decide), hzero 2 (by decide), hzero 3 (by decide)]
  decide

/-- An open that finds nothing wrong with the medium succeeds. -/
theorem openReal_ideal {f : ParentFile} {io : Outcomes} (hio : io.Ideal)
    (hsize : f.size = 0 ∨ 4 ≤ f.size) (hlt : f.size < 2147483648) :
    (openReal f io).1 = .ok := by
  unfold openReal ParentFile.xFileSize
  simp only [hio 0, hio 1, hio 2, Outcome.rc, ne_eq, not_true_eq_false, if_false]
  split_ifs with hzero
  · rw [ParentFile.xWrite_done (by decide)]
  · have hblob : int32 f.size = f.size := int32_of_bounds (by omega) hlt
    have htail : int32 (f.size - 4) = f.size - 4 := int32_of_bounds (by omega) (by omega)
    unfold readSizes
    simp only [hio 2, hio 3, hblob, htail]
    rw [ParentFile.xRead_inside (le_refl 0) (by omega), if_pos rfl,
      ParentFile.xRead_inside (by omega) (by omega)]

namespace Recorded

variable {z z' : Sizes} {f f' : ParentFile} {last : Int} {io : Outcomes} {zBuf : Bytes}
  {iAmt iOfst : Int}

/-- What keeps the account and the first four bytes keeps the record. -/
theorem keep (hr : Recorded z f last) (hacc : Account z' f') (hblob : z'.nBlob = z.nBlob)
    (hheader : ∀ k, 0 ≤ k → k < 4 → f'.byte k = f.byte k) : Recorded z' f' last := by
  have hnBlob := hblob.trans hr.nBlob_eq
  refine ⟨hacc, hnBlob, hacc.size.trans hnBlob, ?_, hr.image.nonneg, hr.image.room⟩
  rw [headerSize_congr hheader]
  exact hr.image.header

theorem fresh {f : ParentFile} (hsize : f.size = 0) :
    Recorded ⟨0, 0, BLOBSIZE⟩ (f.put (fun _ => 0) (BLOBSIZE - 1) 1) 0 := by
  have hacc := (Aligned.fresh hsize).toAccount
  refine ⟨hacc, rfl, hacc.size, ?_, le_refl 0, by decide⟩
  rw [headerSize_congr (f := f), headerSize_empty hsize]
  intro k hlo hhi
  apply ParentFile.put_outside
  left
  simp only [BLOBSIZE]
  omega

/-- Opening a blob takes over what its header records. -/
theorem recovered (hf : Image f last) : Recorded (recovered f) f last := by
  have hsize := hf.size
  have hlast := hf.header
  have hroom := hf.room
  refine ⟨⟨?_, rfl, ?_, ?_, ?_, ?_⟩, hsize, hf⟩
  · change WholeBlob f.size
    rw [hsize]
    exact wholeBlob_BLOBSIZE
  · change 0 ≤ headerSize f
    rw [hlast]
    exact hf.nonneg
  · change headerSize f + BLOCKSIZE ≤ f.size
    rwa [hlast, hsize]
  · simp only [SqliteFs.recovered]
    split_ifs
    · exact f.size_nonneg
    · exact le_refl 0
  · simp only [SqliteFs.recovered]
    split_ifs
    · exact le_refl _
    · exact f.size_nonneg

theorem write {eType : EType} (hr : Recorded z f last) (hargs : WriteArgs eType iAmt iOfst) :
    Recorded (fsWrite eType z f io zBuf iAmt iOfst).2.1
      (fsWrite eType z f io zBuf iAmt iOfst).2.2 last := by
  obtain ⟨hacc, hblob⟩ := hr.toAccount.write io zBuf hargs
  apply hr.keep hacc hblob
  intro k hlo hhi
  apply fsWrite_block0 hr.toAccount.fits hargs
  simp only [BLOCKSIZE]
  omega

theorem truncate {eType : EType} {size : Int} (hr : Recorded z f last) (hsize : 0 ≤ size) :
    Recorded (fsTruncate eType z size) f last := by
  obtain ⟨hacc, hblob⟩ := hr.toAccount.truncate eType hsize
  exact hr.keep hacc hblob fun _ _ _ => rfl

/-- A sync through the journal handle, or one whose header write fails without
touching the header. -/
theorem sync_failed {eType : EType} (hr : Recorded z f last)
    (hfails : eType = .database → ∃ failure, io 0 = .fails failure ∧
      ∀ k, 0 ≤ k → k < 4 → failure.torn k = f.byte k) :
    Recorded z (fsSync eType z f io).2 last := by
  refine hr.keep hr.toAccount.sync rfl ?_
  intro k hlo hhi
  rw [fsSync_file]
  split_ifs with htype
  · obtain ⟨failure, hio, htorn⟩ := hfails htype
    simp only [hio, ParentFile.xWrite, ParentFile.overwrite]
    split_ifs
    · rw [overlay_inside hlo (by omega), sub_zero, htorn k hlo hhi]
    · rfl
  · rfl

/-- A sync through the database handle whose header write succeeds records the
current size. -/
theorem sync_done (hr : Recorded z f last) (hio : io 0 = .done) :
    Recorded z (fsSync .database z f io).2 z.nDatabase := by
  have hacc : Account z (fsSync .database z f io).2 := hr.toAccount.sync
  have hroom := hr.toAccount.room
  have hlt := hr.blob.lt
  have hnBlob := hr.nBlob_eq
  refine ⟨hacc, hnBlob, hacc.size.trans hnBlob, ?_, hr.database, hnBlob ▸ hroom⟩
  rw [fsSync_file, if_pos rfl, hio, ParentFile.xWrite_done (le_refl 0), headerSize,
    ← decodeSize_encodeSize hr.database (by simp only [BLOCKSIZE] at hroom; omega)]
  apply decodeSize_congr
  intro k hlo hhi
  rw [ParentFile.put_inside hlo (by omega), sub_zero,
    decodeSize_encodeSize hr.database (by simp only [BLOCKSIZE] at hroom; omega)]

theorem delete (hr : Recorded z f last) :
    Recorded (deleteReal z f io).2.1 (deleteReal z f io).2.2 last := by
  obtain ⟨hacc, hblob, -⟩ := hr.toAccount.delete io
  have hnBlob := hr.nBlob_eq
  apply hr.keep hacc hblob
  intro k hlo hhi
  apply deleteReal_frame hr.toAccount
  left
  simp only [hnBlob, BLOBSIZE, BLOCKSIZE]
  omega

end Recorded

/-! ## Runs -/

/-- What the parent has to be relied on for: a header write that fails leaves
the four bytes of the header as they were. `fsSync` has no other protection. -/
def Sys.HeaderAtomic (n : Name) (s : Sys) : Call → Prop
  | .xSync id io => ∀ h failure, s.handle id = some h → h.file.eType = .database →
      io 0 = .fails failure → ∀ k, 0 ≤ k → k < 4 → failure.torn k = (s.disk n).byte k
  | _ => True

theorem Call.Ideal.headerAtomic {n : Name} {s : Sys} {c : Call} (hio : c.Ideal) :
    s.HeaderAtomic n c := by
  cases c with
  | xSync id io =>
      intro h failure _ _ hfail
      rw [show io 0 = .done from hio 0] at hfail
      cases hfail
  | _ => trivial

/-- The calls about one database over a medium that may fail. -/
structure Sys.DurableCall (n : Name) (s : Sys) (c : Call) : Prop where
  about : c.About n
  inRange : s.InRange c
  headerAtomic : s.HeaderAtomic n c

/-- The database size at the most recent sync through a database handle whose
header write succeeded. -/
def lastSynced (s : Sys) (c : Call) (_ : Reply) (last : Int) : Int :=
  match c with
  | .xSync id io =>
    match s.handle id, io 0 with
    | some h, .done => if h.file.eType = .database then (s.pReal h).nDatabase else last
    | _, _ => last
  | _ => last

theorem lastSynced_passive {s : Sys} {c : Call} {r : Reply} {last : Int} (hc : c.Passive) :
    lastSynced s c r last = last := by
  cases c with
  | xSync => exact absurd hc id
  | _ => rfl

/-- A sync through a handle keeps the record in step with the header. -/
theorem Recorded.synced {n : Name} {s : Sys} {z : Sizes} {last : Int} {id : Nat} {h : Handle}
    {io : Outcomes} {r : Reply} (hr : Recorded z (s.disk n) last)
    (hatomic : s.HeaderAtomic n (.xSync id io)) (hh : s.handle id = some h)
    (hsizes : (s.pReal h).toSizes = z) :
    Recorded z (fsSync h.file.eType z (s.disk n) io).2 (lastSynced s (.xSync id io) r last) := by
  simp only [lastSynced, hh]
  cases hio : io 0 with
  | done =>
      by_cases htype : h.file.eType = .database
      · simp only [if_pos htype, hsizes]
        rw [htype]
        exact hr.sync_done hio
      · simp only [if_neg htype]
        exact hr.sync_failed fun heq => absurd heq htype
  | fails failure =>
      apply hr.sync_failed
      exact fun htype => ⟨failure, hio, hatomic h failure hh htype hio⟩

theorem recorded_keeps {n : Name} {s : Sys} {c : Call} {r : Reply} {d : Db} {last : Int}
    (hs : s.Serves n) (hcall : s.DurableCall n c)
    (hinv : (s.db n).Related OnMedium Recorded last) (heffect : Effect n s c r d) :
    d.Related OnMedium Recorded (lastSynced s c r last) := by
  refine Db.Related.effect hs ?_ ?_ ?_ ?_ lastSynced_passive ?_ ?_ ?_ ?_ hinv heffect
  · intro hnone hclosed
    have hhandle : ∀ id, s.handle id = none := by
      intro id
      rw [Sys.handle, hnone, List.find?_nil]
    cases c with
    | xSync => simpa only [lastSynced, hhandle] using hclosed
    | _ => exact hclosed
  · rintro id zName flags io - - (⟨hsize, hlast⟩ | himage) hok
    · rcases openReal_cases _ io (Or.inl hsize) (by omega) with
        ⟨-, heq⟩ | ⟨hne, -⟩ | ⟨hfail, -⟩
      · rw [heq, hlast]
        exact Recorded.fresh hsize
      · exact absurd hsize hne
      · exact absurd hok hfail
    · have hsize := himage.size
      simp only [BLOBSIZE] at hsize
      rcases openReal_cases (s.disk n) io (Or.inr (by omega)) (by omega) with
        ⟨hzero, -⟩ | ⟨-, heq⟩ | ⟨hfail, -⟩
      · omega
      · rw [heq]
        exact Recorded.recovered himage
      · exact absurd hok hfail
  · rintro io (⟨hsize, hlast⟩ | himage) hfail
    · rcases openReal_cases _ io (Or.inl hsize) (by omega) with
        ⟨-, heq⟩ | ⟨hne, -⟩ | ⟨-, hkept, -⟩
      · rw [heq] at hfail
        exact absurd rfl hfail
      · exact absurd hsize hne
      · exact Or.inl ⟨hkept.trans hsize, hlast⟩
    · have hsize := himage.size
      simp only [BLOBSIZE] at hsize
      rcases openReal_cases (s.disk n) io (Or.inr (by omega)) (by omega) with
        ⟨hzero, -⟩ | ⟨-, heq⟩ | ⟨-, hkept, hbytes⟩
      · omega
      · rw [heq] at hfail
        exact absurd rfl hfail
      · refine Or.inr ⟨hkept.trans himage.size, ?_, himage.nonneg, himage.room⟩
        rw [headerSize_congr fun k hlo hhi => hbytes k (by simp only [BLOBSIZE]; omega)]
        exact himage.header
  · intro hends z hr
    right
    cases c with
    | xClose => exact hr.image
    | stop => exact hr.image
    | _ => exact absurd hends id
  · rintro id zBuf iAmt iOfst io h z rfl hh - - hr
    exact hr.write (hcall.inRange h hh)
  · rintro id size h z rfl hh - hr
    exact hr.truncate hcall.inRange
  · rintro id io h z rfl hh hsizes hr
    apply hr.synced hcall.headerAtomic hh
    rw [(hs.handle_db (Sys.handle_eq_some hh).1).1] at hsizes
    exact Option.some.inj hsizes
  · rintro zPath io z rfl - hr
    exact hr.delete

theorem recorded_run {n : Name} {disk : Disk} {calls : List Call} {s : Sys} {last : Int}
    (hfresh : (disk n).size = 0)
    (hrun : Run (tracked Sys.step lastSynced) (fun sg => Sys.DurableCall n sg.1)
      (Sys.start disk, 0) calls (s, last)) :
    s.Serves n ∧ (s.db n).Related OnMedium Recorded last :=
  Sys.tracked_run (Db.Related OnMedium Recorded) (fun _ _ hcall => hcall.about)
    (fun _ _ _ _ _ hs hinv hcall heffect => recorded_keeps hs hcall hinv heffect)
    hrun (Sys.start_serves disk n) (Or.inl ⟨hfresh, rfl⟩)

/-! ## Starting again -/

/-- `s'` is `s` after the process was killed, or after it had closed every handle. -/
def Sys.Down (s s' : Sys) : Prop := s' = Sys.start s.disk ∨ (s' = s ∧ s.handles = [])

theorem Sys.Serves.down {s s' : Sys} {n : Name} (hs : s.Serves n) (hdown : s.Down s') :
    s'.Serves n ∧ s'.handles = [] ∧ s'.disk = s.disk := by
  rcases hdown with rfl | ⟨rfl, hnone⟩
  · exact ⟨Sys.start_serves s.disk n, rfl, rfl⟩
  · exact ⟨hs, hnone, rfl⟩

theorem onMedium_of_related {s : Sys} {n : Name} {last : Int}
    (hinv : (s.db n).Related OnMedium Recorded last) : OnMedium (s.disk n) last := by
  unfold Db.Related at hinv
  split at hinv
  · exact hinv
  · exact Or.inr hinv.image

/-- Opening the database again lays out a blob that is not there yet, and
takes over what is there otherwise. -/
theorem reopened {s s' t : Sys} {n : Name} {last : Int} (hs : s.Serves n)
    (hmedium : OnMedium (s.disk n) last) (hdown : s.Down s') {id flags : Nat}
    (htype : openType flags = .database) {io : Outcomes} (hio : io.Ideal) {r : Reply}
    (hstep : s'.step (.xOpen id n flags true io) = some (t, r)) :
    r.rc = .ok ∧ ∃ h, t.handle id = some h ∧ h.file.eType = .database ∧ t.pFile h = t.disk n ∧
      (((s.disk n).size = 0 ∧ last = 0 ∧ (t.pReal h).toSizes = ⟨0, 0, BLOBSIZE⟩ ∧
          t.disk n = (s.disk n).put (fun _ => 0) (BLOBSIZE - 1) 1) ∨
        (Image (s.disk n) last ∧ (t.pReal h).toSizes = recovered (s.disk n) ∧
          t.disk n = s.disk n)) := by
  obtain ⟨hs', hnone, hdisk⟩ := hs.down hdown
  have hsize : (s.disk n).size = 0 ∨ (s.disk n).size = BLOBSIZE :=
    hmedium.imp (fun hempty => hempty.1) fun himage => himage.size
  simp only [BLOBSIZE] at hsize
  have hok := openReal_ideal hio (f := s.disk n) (by omega) (by omega)
  have habout : (Call.xOpen id n flags true io).About n := Or.inl ⟨rfl, htype⟩
  have hopened := hs'.opened hnone htype (hdisk ▸ hok) hstep
  rw [hdisk] at hopened
  obtain ⟨hrc, h, hh, hdb, hsizes, hfile⟩ := hopened
  have hpFile := ((hs'.step habout hstep).handle_db (Sys.handle_eq_some hh).1).2
  refine ⟨hrc, h, hh, hdb, hpFile, ?_⟩
  rw [hsizes, hfile]
  rcases hmedium with ⟨hempty, hlast⟩ | himage
  · left
    rcases openReal_cases (s.disk n) io (Or.inl hempty) (by omega) with
      ⟨-, heq⟩ | ⟨hne, -⟩ | ⟨hfail, -⟩
    · rw [heq]
      exact ⟨hempty, hlast, rfl, rfl⟩
    · exact absurd hempty hne
    · exact absurd hok hfail
  · right
    have hfull := himage.size
    simp only [BLOBSIZE] at hfull
    rcases openReal_cases (s.disk n) io (Or.inr (by omega)) (by omega) with
      ⟨hzero, -⟩ | ⟨-, heq⟩ | ⟨hfail, -⟩
    · omega
    · rw [heq]
      exact ⟨himage, rfl, rfl⟩
    · exact absurd hok hfail

/-- Calls that neither write, truncate, sync, delete nor open. -/
def Call.Quiet : Call → Prop
  | .xRead .. | .xFileSize .. | .xAccess .. | .xClose .. | .stop => True
  | _ => False

theorem quiet_run {s t : Sys} {n : Name} {last : Int} {calls : List Call} (hs : s.Serves n)
    (hinv : (s.db n).Related OnMedium Recorded last)
    (hrun : Run Sys.next (fun _ c => c.Quiet) s calls t) :
    t.Serves n ∧ t.disk n = s.disk n ∧ (t.db n).Related OnMedium Recorded last := by
  refine hrun.invariant (fun t => t.Serves n ∧ t.disk n = s.disk n ∧
    (t.db n).Related OnMedium Recorded last) ?_ ⟨hs, rfl, hinv⟩
  rintro u c v ⟨hu, hdisk, hinv⟩ hquiet hnext
  obtain ⟨r, hstep⟩ := Sys.next_eq_some.mp hnext
  have hcall : u.DurableCall n c ∧ lastSynced u c r last = last ∧ v.disk = u.disk := by
    cases c with
    | xRead | xFileSize =>
        obtain ⟨h, -, heq⟩ := Option.map_eq_some_iff.mp hstep
        obtain ⟨rfl, -⟩ := Prod.ext_iff.mp heq
        exact ⟨⟨trivial, trivial, trivial⟩, rfl, rfl⟩
    | xAccess | stop =>
        obtain ⟨rfl, -⟩ := Prod.ext_iff.mp (Option.some.inj hstep)
        exact ⟨⟨trivial, trivial, trivial⟩, rfl, rfl⟩
    | xClose =>
        obtain ⟨h, -, hout⟩ := Option.bind_eq_some_iff.mp hstep
        obtain ⟨out, -, heq⟩ := Option.map_eq_some_iff.mp hout
        obtain ⟨rfl, -⟩ := Prod.ext_iff.mp heq
        exact ⟨⟨trivial, trivial, trivial⟩, rfl, rfl⟩
    | _ => exact absurd hquiet id
  obtain ⟨hcall, hlast, hsame⟩ := hcall
  have hkeep := recorded_keeps hu hcall hinv (Sys.step_effect hu hcall.about hstep)
  rw [hlast] at hkeep
  exact ⟨hu.step hcall.about hstep, by rw [hsame, hdisk], hkeep⟩

/-- A read of the database looks at its size and at the parent file only. -/
theorem fsRead_database_congr {z z' : Sizes} (hsize : z'.nDatabase = z.nDatabase)
    (f : ParentFile) (io : Outcomes) (zBuf : Bytes) (iAmt iOfst : Int) :
    fsRead .database z' f io zBuf iAmt iOfst = fsRead .database z f io zBuf iAmt iOfst := by
  simp only [fsRead, hsize, reduceCtorEq, false_and, or_false, true_and, if_true]

/-- Every read through `id'` in `t` is answered as the one through `id` in `s`. -/
def SameReads (s : Sys) (id : Nat) (t : Sys) (id' : Nat) : Prop :=
  ∀ zBuf iAmt iOfst io, (t.step (.xRead id' zBuf iAmt iOfst io)).map Prod.snd =
    (s.step (.xRead id zBuf iAmt iOfst io)).map Prod.snd

/-- What the medium says after a sync through a database handle, and what the
handle is bound to. -/
theorem synced {s t : Sys} {n : Name} {last : Int} (hs : s.Serves n)
    (hinv : (s.db n).Related OnMedium Recorded last) {id : Nat} {h : Handle}
    (hh : s.handle id = some h) (htype : h.file.eType = .database) {io : Outcomes}
    (hio : io 0 = .done) {r : Reply} (hstep : s.step (.xSync id io) = some (t, r)) :
    t.Serves n ∧ t.handle id = some h ∧
      (t.db n).Related OnMedium Recorded (t.pReal h).nDatabase := by
  have hcall : s.DurableCall n (.xSync id io) := by
    refine ⟨trivial, trivial, ?_⟩
    intro h failure hh htype hfail
    rw [hio] at hfail
    cases hfail
  have hserves := hs.step hcall.about hstep
  have hkeep := recorded_keeps hs hcall hinv (Sys.step_effect hs hcall.about hstep)
  simp only [lastSynced, hh, hio, htype, if_true] at hkeep
  simp only [Sys.step, hh, Option.map_some, Option.some.injEq, Prod.mk.injEq] at hstep
  obtain ⟨rfl, -⟩ := hstep
  have hsame : (Sys.pReal (s.store h.file.pReal (s.pReal h).toSizes
      (fsSync h.file.eType (s.pReal h).toSizes (s.pFile h) io).2) h).nDatabase =
      (s.pReal h).nDatabase := by
    simp only [Sys.pReal, Sys.store, FsVfs.setSizes_toSizes, if_true]
  rw [hsame]
  exact ⟨hserves, hh, hkeep⟩

/-- Two pages of `"db"`, synced, and a third one that is not. -/
def syncedCalls : List Call :=
  [.xOpen 0 [100, 98] SQLITE_OPEN_MAIN_DB true carriedOut,
    .xWrite 0 (fun _ => 7) 1024 0 carriedOut,
    .xSync 0 carriedOut,
    .xWrite 0 (fun _ => 8) 512 1024 carriedOut]

def syncedState : Sys × Int :=
  after (tracked Sys.step lastSynced) (Sys.start fun _ => .blank, 0) syncedCalls

theorem syncedState_run : Run (tracked Sys.step lastSynced)
    (fun sg => Sys.DurableCall [100, 98] sg.1) (Sys.start fun _ => .blank, 0) syncedCalls
    syncedState := by
  refine Run.of_after (fun c hc sg => ?_) (by decide +kernel)
  fin_cases hc
  · exact ⟨Or.inl ⟨rfl, by decide⟩, trivial, trivial⟩
  · exact ⟨trivial, fun h hh => ⟨by decide, by decide, by split_ifs <;> decide⟩, trivial⟩
  · exact ⟨trivial, trivial, nofun⟩
  · exact ⟨trivial, fun h hh => ⟨by decide, by decide, by split_ifs <;> decide⟩, trivial⟩

/-- The persistent size is the one last synced, and the blob keeps its size.
So the next open finds that size, and when only quiet calls came after the
sync, the database as it was. -/
theorem synced_size_persists {n : Name} {disk : Disk} {calls : List Call} {s : Sys} {last : Int}
    (hfresh : (disk n).size = 0)
    (hrun : Run (tracked Sys.step lastSynced) (fun sg => Sys.DurableCall n sg.1)
      (Sys.start disk, 0) calls (s, last)) :
    headerSize (s.disk n) = last ∧
      (∀ h ∈ s.handles, (s.pReal h).nBlob = BLOBSIZE ∧ (s.disk n).size = (s.pReal h).nBlob) ∧
      (∀ s' id flags io t r, s.Down s' → openType flags = .database → io.Ideal →
        s'.step (.xOpen id n flags true io) = some (t, r) →
        r.rc = .ok ∧ ∃ h, t.handle id = some h ∧ (t.pReal h).nDatabase = last ∧
          (t.pReal h).nBlob = BLOBSIZE) ∧
      ∀ id h io s₁ r₁ quiet s₂ s₃ id' flags io' t r, s.handle id = some h →
        h.file.eType = .database → io 0 = .done → s.step (.xSync id io) = some (s₁, r₁) →
        Run Sys.next (fun _ c => c.Quiet) s₁ quiet s₂ → s₂.Down s₃ →
        openType flags = .database → io'.Ideal →
        s₃.step (.xOpen id' n flags true io') = some (t, r) → SameReads s₁ id t id' := by
  obtain ⟨hs, hinv⟩ := recorded_run hfresh hrun
  have hmedium := onMedium_of_related hinv
  refine ⟨?_, ?_, ?_, ?_⟩
  · rcases hmedium with ⟨hempty, rfl⟩ | himage
    · exact headerSize_empty hempty
    · exact himage.header
  · intro h hmem
    rw [(hs.handle_db hmem).1] at hinv
    have hr : Recorded (s.pReal h).toSizes (s.disk n) last := hinv
    exact ⟨hr.nBlob_eq, hr.toAccount.size⟩
  · intro s' id flags io t r hdown htype hio hstep
    obtain ⟨hrc, h, hh, -, -, hcases⟩ := reopened hs hmedium hdown htype hio hstep
    refine ⟨hrc, h, hh, ?_⟩
    rcases hcases with ⟨-, hlast, hsizes, -⟩ | ⟨himage, hsizes, -⟩
    · rw [hsizes, hlast]
      exact ⟨rfl, rfl⟩
    · rw [hsizes]
      exact ⟨himage.header, himage.size⟩
  · intro id h io s₁ r₁ quiet s₂ s₃ id' flags io' t r hh htype hio hsync hquiet hdown hflags
      hio' hopen zBuf iAmt iOfst ioRead
    obtain ⟨hs₁, hh₁, hinv₁⟩ := synced hs hinv hh htype hio hsync
    obtain ⟨hs₂, hdisk, hinv₂⟩ := quiet_run hs₁ hinv₁ hquiet
    have hfull : (s₁.disk n).size = BLOBSIZE := by
      rw [(hs₁.handle_db (Sys.handle_eq_some hh₁).1).1] at hinv₁
      have hr : Recorded (s₁.pReal h).toSizes (s₁.disk n) _ := hinv₁
      exact hr.image.size
    obtain ⟨-, h', hh', htype', hpFile, hcases⟩ :=
      reopened hs₂ (onMedium_of_related hinv₂) hdown hflags hio' hopen
    rcases hcases with ⟨hempty, -⟩ | ⟨himage, hsizes, hfile⟩
    · rw [hdisk, hfull] at hempty
      cases hempty
    · have hsize : (t.pReal h').nDatabase = (s₁.pReal h).nDatabase := by
        rw [hsizes]
        exact himage.header
      simp only [Sys.step, hh', hh₁, Option.map_some, htype', htype, hpFile, hfile, hdisk,
        (hs₁.handle_db (Sys.handle_eq_some hh₁).1).2, fsRead_database_congr hsize]

theorem synced_size_persists_two_pages :
    headerSize (syncedState.1.disk [100, 98]) = 1024 ∧
      ∃ t r h, (Sys.start syncedState.1.disk).step
          (.xOpen 5 [100, 98] SQLITE_OPEN_MAIN_DB true carriedOut) = some (t, r) ∧
        r.rc = .ok ∧ t.handle 5 = some h ∧ (t.pReal h).nDatabase = 1024 := by
  have hlast : syncedState.2 = 1024 := by decide +kernel
  obtain ⟨hheader, -, hreopen, -⟩ := synced_size_persists (n := [100, 98]) rfl syncedState_run
  obtain ⟨hrc, h, hh, hsize, -⟩ := hreopen _ 5 SQLITE_OPEN_MAIN_DB carriedOut _ _ (Or.inl rfl)
    (by decide) carriedOut_ideal rfl
  exact ⟨hheader.trans hlast, _, _, h, rfl, hrc, hh, hsize.trans hlast⟩

/-- A header write that fails in the middle. -/
def tornHeader : Failure := ⟨.ioerrWrite, fun k => if k = 0 then 1 else 0, nofun⟩

/-- Two synced pages, a third one, and a sync that leaves a torn header. -/
def tornCalls : List Call :=
  syncedCalls ++ [.xSync 0 fun _ => .fails tornHeader]

def tornState : Sys × Int :=
  after (tracked Sys.step lastSynced) (Sys.start fun _ => .blank, 0) tornCalls

/-- Without the assumption on the header write the persistent size can be one
that no sync recorded. -/
theorem torn_header_lost :
    Run (tracked Sys.step lastSynced) (fun sg c => c.About [100, 98] ∧ sg.1.InRange c)
        (Sys.start fun _ => .blank, 0) tornCalls tornState ∧
      tornState.2 = 1024 ∧ headerSize (tornState.1.disk [100, 98]) = 16777216 := by
  refine ⟨Run.of_after (fun c hc sg => ?_) (by decide +kernel), ?_, ?_⟩
  · fin_cases hc
    · exact ⟨Or.inl ⟨rfl, by decide⟩, trivial⟩
    · exact ⟨trivial, fun h hh => ⟨by decide, by decide, by split_ifs <;> decide⟩⟩
    · exact ⟨trivial, trivial⟩
    · exact ⟨trivial, fun h hh => ⟨by decide, by decide, by split_ifs <;> decide⟩⟩
    · exact ⟨trivial, trivial⟩
  all_goals decide +kernel

end SqliteFs
