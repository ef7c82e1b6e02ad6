import SqliteFs.WideOffsets

/-!
The limit of the file format comment: the database is never to take more than
90% of the blob. `fsWrite` tests only for the space that the journal leaves, so
the limit holds in a run exactly as far as its writes keep to it.
-/

namespace SqliteFs

open Lib

/-- At most 90% of the blob is database. -/
def Sizes.WithinLimit (z : Sizes) : Prop := 10 * z.nDatabase ≤ 9 * z.nBlob

theorem Sizes.withinLimit_fresh : Sizes.WithinLimit ⟨0, 0, BLOBSIZE⟩ := by
  unfold WithinLimit BLOBSIZE
  decide

/-- The space check of a database write: the journal leaves no room for it. -/
def Sizes.NoRoom (z : Sizes) (iAmt iOfst : Int) : Prop :=
  int32 (z.nBlob - z.nJournal) < iOfst + iAmt + BLOCKSIZE

section

variable {z : Sizes} {f : ParentFile} {io : Outcomes} {zBuf : Bytes} {iAmt iOfst : Int}

theorem fsWrite_noRoom (hfull : z.NoRoom iAmt iOfst) :
    fsWrite .database z f io zBuf iAmt iOfst = (.full, z, f) := by
  unfold Sizes.NoRoom at hfull
  unfold fsWrite
  rw [if_pos rfl, if_pos (by omega)]

theorem fsWrite_room (hroom : ¬z.NoRoom iAmt iOfst) (hofst : 0 ≤ iOfst) (hio : io.Ideal) :
    (fsWrite .database z f io zBuf iAmt iOfst).1 = .ok := by
  have hput : f.xWrite (io 0) zBuf iAmt (iOfst + BLOCKSIZE) =
      (.ok, f.put zBuf (iOfst + BLOCKSIZE) iAmt) := by
    rw [hio 0, ParentFile.xWrite_done (by simp only [BLOCKSIZE]; omega)]
  unfold Sizes.NoRoom at hroom
  unfold fsWrite
  rw [if_pos rfl, if_neg (by omega)]
  simp only [hput, if_true]

/-- A write keeps the record within the limit when it ends there or has no room. -/
theorem Sizes.WithinLimit.write (hlimit : z.WithinLimit) (hblob : z.nBlob = BLOBSIZE)
    {eType : EType} (hargs : WideArgs iAmt iOfst)
    (hkeeps : eType = .database →
      10 * (iOfst + iAmt) ≤ 9 * z.nBlob ∨ z.NoRoom iAmt iOfst) :
    (fsWrite eType z f io zBuf iAmt iOfst).2.1.WithinLimit := by
  have hofst := hargs.ofst
  have hamt := hargs.amt
  rcases fsWrite_sizes eType z f io zBuf iAmt iOfst with heq | ⟨htype, hfit, heq⟩ | ⟨-, heq⟩
  · rwa [heq]
  · have hend : 10 * (iOfst + iAmt) ≤ 9 * z.nBlob := by
      rcases hkeeps htype with hend | hfull
      · exact hend
      · unfold Sizes.NoRoom at hfull
        omega
    simp only [Sizes.WithinLimit, BLOBSIZE] at hlimit hblob
    have hmax : int32 (max z.nDatabase (iAmt + iOfst)) = max z.nDatabase (iAmt + iOfst) :=
      int32_of_bounds (by omega) (by omega)
    rw [heq, hmax]
    simp only [Sizes.WithinLimit]
    omega
  · rwa [heq]

theorem Sizes.WithinLimit.truncate (hlimit : z.WithinLimit) (hz : z.Wide f ()) {eType : EType}
    {size : Int} (hsize : 0 ≤ size) : (fsTruncate eType z size).WithinLimit := by
  have hdb := hz.database
  have hdbLt := hz.databaseLt
  have hmin : int32 (min z.nDatabase size) = min z.nDatabase size := by
    simp only [BLOCKSIZE] at hdbLt
    exact int32_of_bounds (by omega) (by omega)
  unfold fsTruncate
  split_ifs
  · simp only [Sizes.WithinLimit, hmin] at hlimit ⊢
    omega
  · exact hlimit

theorem Sizes.WithinLimit.delete (hlimit : z.WithinLimit) :
    (deleteReal z f io).2.1.WithinLimit := by
  rcases deleteReal_sizes z f io with heq | heq
  · rwa [heq]
  · rwa [heq]

end

namespace Sys

def WithinLimit (s : Sys) : Prop := ∀ h ∈ s.handles, (s.pReal h).toSizes.WithinLimit

/-- A database write past the limit is answered `SQLITE_FULL` and changes nothing. -/
def ObeysLimit (n : Name) (s : Sys) (c : Call) : Prop :=
  ∀ id zBuf iAmt iOfst io h, c = .xWrite id zBuf iAmt iOfst io → s.handle id = some h →
    h.file.eType = .database → 9 * (s.pReal h).nBlob < 10 * (iOfst + iAmt) →
    ∃ t r, s.step c = some (t, r) ∧ r.rc = .full ∧ t.db n = s.db n

/-- A database write ends within the limit, or the journal leaves no room for it. -/
def KeepsLimit (s : Sys) : Call → Prop
  | .xWrite id _ iAmt iOfst _ => ∀ h, s.handle id = some h → h.file.eType = .database →
    10 * (iOfst + iAmt) ≤ 9 * (s.pReal h).nBlob ∨ (s.pReal h).toSizes.NoRoom iAmt iOfst
  | _ => True

variable {n : Name} {s t : Sys} {c : Call}

/-- The session state that the limit adds to. -/
abbrev InLimit (n : Name) (s : Sys) : Prop :=
  s.Serves n ∧ (s.db n).Session () (fun z f u => z.Wide f u ∧ z.WithinLimit) ()

/-- A step that keeps to the limit leads from states within it to such states. -/
theorem InLimit.next (hs : s.InLimit n) (hcall : s.WideCall n c) (hnext : s.next c = some t)
    (hkeeps : s.KeepsLimit c) : t.InLimit n := by
  obtain ⟨r, hstep⟩ := next_eq_some.mp hnext
  refine ⟨hs.1.step hcall.about hstep, ?_⟩
  apply Db.Session.effect hs.1 hcall.staysOpen (g := ()) ?_ (fun _ _ => rfl) (fun _ => rfl)
    ?_ ?_ ?_ ?_ hs.2 (step_effect hs.1 hcall.about hstep)
  · exact fun f _ => ⟨Sizes.Wide.fresh, Sizes.withinLimit_fresh⟩
  · rintro id zBuf iAmt iOfst io h z rfl hh hsizes - ⟨hz, hlimit⟩
    rw [(hs.1.handle_db (handle_eq_some hh).1).1] at hsizes
    obtain rfl := Option.some.inj hsizes
    exact ⟨hz.write, hlimit.write hz.blob (hcall.inRange h hh).1 (hkeeps h hh)⟩
  · rintro id size h z rfl - - ⟨hz, hlimit⟩
    exact ⟨hz.truncate hcall.inRange, hlimit.truncate hz hcall.inRange⟩
  · rintro id io h z rfl - ⟨hz, hlimit⟩
    exact ⟨hz.ofFile, hlimit⟩
  · rintro zPath io z rfl - ⟨hz, hlimit⟩
    exact ⟨hz.delete, hlimit.delete⟩

/-- What a database write past the limit comes to. -/
theorem obeysLimit_of_keeps (hs : s.Serves n) (hkeeps : s.KeepsLimit c) : s.ObeysLimit n c := by
  rintro id zBuf iAmt iOfst io h rfl hh htype hpast
  have hfull : (s.pReal h).toSizes.NoRoom iAmt iOfst := by
    rcases hkeeps h hh htype with hend | hfull
    · exact absurd hpast (not_lt.mpr hend)
    · exact hfull
  obtain ⟨t, r, hstep, hrc, hdb⟩ := hs.write_step hh zBuf iAmt iOfst io
  rw [htype, fsWrite_noRoom hfull] at hrc hdb
  exact ⟨t, r, hstep, hrc, hdb.trans (hs.handle_db (handle_eq_some hh).1).1.symm⟩

/-- On an ideal medium a write that obeys the limit is one that keeps to it. -/
theorem keepsLimit_of_obeys (hs : s.Serves n) (hcall : s.WideCall n c) (hideal : c.Ideal)
    (hobeys : s.ObeysLimit n c) : s.KeepsLimit c := by
  cases c with
  | xWrite id zBuf iAmt iOfst io =>
      intro h hh htype
      by_contra hnot
      push Not at hnot
      obtain ⟨hpast, hroom⟩ := hnot
      obtain ⟨t, r, hstep, hfull, -⟩ := hobeys id zBuf iAmt iOfst io h rfl hh htype hpast
      obtain ⟨t', r', hstep', hrc, -⟩ := hs.write_step hh zBuf iAmt iOfst io
      obtain ⟨-, rfl⟩ := Prod.ext_iff.mp (Option.some.inj (hstep.symm.trans hstep'))
      rw [htype, fsWrite_room hroom (hcall.inRange h hh).1.ofst hideal, hfull] at hrc
      cases hrc
  | _ => trivial

end Sys

/-- In a run whose writes keep to the limit the database never passes it, and
every write that would is refused; on an ideal medium these are the only runs
in which every such write is refused. -/
theorem growth_limit {n : Name} {disk : Disk} {calls : List Call} {s : Sys}
    (hfresh : (disk n).size = 0)
    (hrun : Run Sys.next (Sys.WideCall n) (Sys.start disk) calls s) :
    (Along Sys.next Sys.KeepsLimit (Sys.start disk) calls →
        Throughout Sys.next Sys.WithinLimit (Sys.start disk) calls ∧
          Along Sys.next (Sys.ObeysLimit n) (Sys.start disk) calls) ∧
      ((∀ c ∈ calls, c.Ideal) → Along Sys.next (Sys.ObeysLimit n) (Sys.start disk) calls →
        Along Sys.next Sys.KeepsLimit (Sys.start disk) calls) := by
  have hstart : (Sys.start disk).Serves n := Sys.start_serves disk n
  have hkeep : ∀ (s : Sys) c t, s.Serves n → s.WideCall n c → s.next c = some t → t.Serves n :=
    fun s c t hs hcall hnext => hs.next hcall.about hnext
  refine ⟨fun halong => ⟨?_, ?_⟩, fun hideal halong => ?_⟩
  · have hlimit : Throughout Sys.next (Sys.InLimit n) (Sys.start disk) calls := by
      apply Along.throughout hkeep ?_ hrun hstart ⟨hstart, hfresh, rfl⟩ halong
      exact fun s c t _ hs hcall hnext hkeeps => hs.next hcall hnext hkeeps
    apply hlimit.mono
    exact fun s hs h hmem => (hs.1.session_handle hs.2 hmem).2
  · apply Along.imp hkeep ?_ hrun hstart halong
    exact fun s c t hs _ _ hkeeps => Sys.obeysLimit_of_keeps hs hkeeps
  · apply Along.imp (fun s c t hs hcall => hkeep s c t hs hcall.1) ?_ (hrun.restrict hideal)
      hstart halong
    exact fun s c t hs hcall _ hobeys => Sys.keepsLimit_of_obeys hs hcall.1 hcall.2 hobeys

/-- The database `"db"` is opened on an empty file and one page is written at `iOfst`. -/
def pageAt (iOfst : Int) : List Call :=
  [.xOpen 0 [100, 98] SQLITE_OPEN_MAIN_DB true carriedOut,
    .xWrite 0 (fun _ => 7) 512 iOfst carriedOut]

theorem pageAt_session {iOfst : Int} (hlo : 0 ≤ iOfst) (hhi : iOfst < 2147483648 - 2048) :
    ∀ c ∈ pageAt iOfst, ∀ s, Sys.WideCall [100, 98] s c := by
  intro c hc s
  fin_cases hc
  · exact ⟨Or.inl ⟨rfl, by decide⟩, trivial, trivial⟩
  · refine ⟨trivial, fun h hh => ⟨⟨hlo, by omega, by decide, by decide⟩, fun _ => ?_⟩, trivial⟩
    simp only [BLOCKSIZE]
    omega

theorem growth_limit_first_page :
    Throughout Sys.next Sys.WithinLimit (Sys.start fun _ => .blank) (pageAt 0) ∧
      Along Sys.next (Sys.ObeysLimit [100, 98]) (Sys.start fun _ => .blank) (pageAt 0) := by
  have hsteps : (steps Sys.next (Sys.start fun _ => .blank) (pageAt 0)).isSome := by
    decide +kernel
  have hrun := Run.of_after (pageAt_session (le_refl 0) (by decide)) hsteps
  apply (growth_limit rfl hrun).1
  apply Along.cons_after (by decide +kernel) trivial
  refine ⟨?_, fun _ _ => trivial⟩
  intro h hh _
  have hhandle : (after Sys.next (Sys.start fun _ => .blank)
      [.xOpen 0 [100, 98] SQLITE_OPEN_MAIN_DB true carriedOut]).handle 0 =
        some ⟨0, [100, 98], ⟨true, .database, 1⟩⟩ := by decide +kernel
  obtain rfl := Option.some.inj (hhandle.symm.trans hh)
  exact Or.inl (by decide +kernel)

/-- A page at 90% of the blob is accepted. -/
theorem page_past_limit :
    let s := after Sys.next (Sys.start fun _ => .blank) (pageAt 9437184)
    Run Sys.next (Sys.WideCall [100, 98]) (Sys.start fun _ => .blank) (pageAt 9437184) s ∧
      ∃ h ∈ s.handles, (s.pReal h).nDatabase = 9437696 ∧ (s.pReal h).nBlob = BLOBSIZE ∧
        9 * (s.pReal h).nBlob < 10 * (s.pReal h).nDatabase := by
  intro s
  have hmem : ⟨0, [100, 98], ⟨true, .database, 1⟩⟩ ∈ s.handles := by decide +kernel
  refine ⟨Run.of_after (pageAt_session (by decide) (by decide)) (by decide +kernel), _, hmem, ?_⟩
  decide +kernel

end SqliteFs
