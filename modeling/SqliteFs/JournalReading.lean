import SqliteFs.Undoable

/-!
Reading the headers of a journal. The functions that read the journal never
change it, and a header that was written is read with what was written into it.
-/

namespace SqliteFs

open Lib Prog

variable {G : Geometry} {base : DbImage G} {w : World} {E : Code → World → Prop}

/-- `t` is `w` with another position in the journal and another checksum start. -/
def Moved (w t : World) : Prop :=
  ∃ a c, t = { w with pager := { w.pager with journalOff := a, cksumInit := c } }

theorem Moved.refl (w : World) : Moved w w := ⟨_, _, rfl⟩

theorem Moved.trans {w t u : World} (h : Moved w t) (h' : Moved t u) : Moved w u := by
  obtain ⟨a, c, rfl⟩ := h
  obtain ⟨a', c', rfl⟩ := h'
  exact ⟨a', c', rfl⟩

theorem isMagic_iff {b : Bytes} :
    isMagic b = true ↔ ∀ k, 0 ≤ k → k < 8 → b k = aJournalMagic k := by
  simp only [isMagic, List.all_eq_true, List.mem_range, decide_eq_true_eq]
  constructor
  · intro h k hlo hhi
    obtain ⟨n, rfl⟩ := Int.eq_ofNat_of_zero_le hlo
    exact h n (by omega)
  · intro h n hn
    exact h n (by omega) (by omega)

theorem headerSizesValid_geometry (G : Geometry) :
    headerSizesValid G.pageSize G.sectorSize = true := by
  have hpow : ∀ n : Nat, ((2 : Int) ^ n - 1).toNat &&& ((2 : Int) ^ n).toNat = 0 := by
    intro n
    have hcast : ((2 : Int) ^ n).toNat = 2 ^ n := by
      rw [← Nat.cast_ofNat, ← Nat.cast_pow, Int.toNat_natCast]
    have hpred : ((2 : Int) ^ n - 1).toNat = 2 ^ n - 1 := by
      have hpos : 0 < (2 : Int) ^ n := by positivity
      omega
    rw [hcast, hpred, Nat.and_comm, Nat.and_two_pow_sub_one_eq_mod, Nat.mod_self]
  have hP := G.pageSize_bounds
  have hS := G.sectorSize_bounds
  have hPpow : (G.pageSize - 1).toNat &&& G.pageSize.toNat = 0 := by
    obtain ⟨n, -, -, hn⟩ := G.pageSize_pow
    rw [hn]
    exact hpow n
  have hSpow : (G.sectorSize - 1).toNat &&& G.sectorSize.toNat = 0 := by
    obtain ⟨n, -, hn⟩ := G.sectorSize_pow
    rw [hn]
    exact hpow n
  simp only [headerSizesValid, hPpow, hSpow]
  simp
  omega

theorem wp_readMagic {isHot : Bool} {hdr : Int} {Q : Bool → World → Prop}
    (hin : hdr + 8 ≤ w.jfd.now.size)
    (hmagic : isHot = true ∨ hdr ≠ w.pager.journalHdr → MagicAt w.jfd.now hdr) (hok : Q true w)
    (herr : ∀ full, E (IoOutcome.code full) w) : wp (readMagic isHot hdr) Q E w := by
  apply wp_bind
  apply wp_getPager
  apply wp_ite
  · intro hlook
    apply wp_bind
    apply wp_sqlite3OsRead
    · simp only [World.file, hin, decide_true, if_true]
      apply wp_pure
      rwa [isMagic_iff.mpr (hmagic hlook)]
    · exact herr
  · exact fun _ => wp_pure hok

theorem wp_readHeaderSizes {hdr : Int} {cksumInit : UInt32} {Q : Bool → World → Prop}
    (hin : hdr + 28 ≤ w.jfd.now.size) (hbody : HeaderBody base w.jfd.now hdr cksumInit)
    (hok : Q true w) (herr : ∀ full, E (IoOutcome.code full) w) :
    wp (readHeaderSizes G hdr) Q E w := by
  have hS := G.sectorSize_bounds
  have hP := G.pageSize_bounds
  apply wp_ite
  · intro _
    apply wp_bind
    apply wp_read32bits _ _ herr
    · simp only [World.file]
      omega
    · apply wp_bind
      apply wp_read32bits _ _ herr
      · simp only [World.file]
        omega
      · simp only [World.file, hbody.sectorSize.get4 (by omega) (by omega),
          hbody.pageSize.get4 (by omega) (by omega)]
        apply wp_pure
        rwa [if_neg (by omega), headerSizesValid_geometry]
  · exact fun _ => wp_pure hok

/-- A header with its fields in place is read with the values it was given. -/
theorem wp_readJournalHdr {isHot : Bool} {journalSize hdr nRec : Int} {cksumInit : UInt32}
    {Q : Option (Int × Int) → World → Prop} (hhdr : journalHdrOffset G w.pager.journalOff = hdr)
    (hroom : hdr + G.sectorSize ≤ journalSize) (hsize : journalSize ≤ w.jfd.now.size)
    (hmagic : isHot = true ∨ hdr ≠ w.pager.journalHdr → MagicAt w.jfd.now hdr)
    (hnRec : Stores w.jfd.now (hdr + 8) 4 (sqlite3Put4byte nRec)) (hlo : 0 ≤ nRec)
    (hhi : nRec < 4294967296) (hbody : HeaderBody base w.jfd.now hdr cksumInit)
    (hok : Q (some (nRec, base.pages)) { w with pager := { w.pager with
      journalOff := hdr + G.sectorSize, cksumInit := cksumInit } })
    (herr : ∀ full t, Moved w t → E (IoOutcome.code full) t) :
    wp (readJournalHdr G isHot journalSize) Q E w := by
  have hS := G.sectorSize_bounds
  have hpos := base.pages_pos
  have hmax := base.pages_le
  simp only [PAGER_MAX_PGNO] at hmax
  have hck : (cksumInit.toNat : Int) < 4294967296 := by
    have := cksumInit.toNat_lt
    omega
  have hof : UInt32.ofNat (cksumInit.toNat : Int).toNat = cksumInit := by
    rw [Int.toNat_natCast, UInt32.ofNat_toNat]
  apply wp_bind
  apply wp_setPager
  apply wp_bind
  apply wp_getPager
  simp only [hhdr]
  apply wp_ite
  · intro hshort
    omega
  intro _
  have hmagicEnd : hdr + 8 ≤ w.jfd.now.size := by omega
  have hnRecEnd : hdr + 8 + 4 ≤ w.jfd.now.size := by omega
  have hcksumEnd : hdr + 12 + 4 ≤ w.jfd.now.size := by omega
  have hdbSizeEnd : hdr + 16 + 4 ≤ w.jfd.now.size := by omega
  have hfile : hdr + 28 ≤ w.jfd.now.size := by omega
  apply wp_bind
  apply wp_readMagic
  · exact hmagicEnd
  · exact hmagic
  · apply wp_ite
    · intro hfalse
      simp at hfalse
    intro _
    apply wp_bind
    apply wp_read32bits
    · exact hnRecEnd
    · apply wp_bind
      apply wp_read32bits
      · exact hcksumEnd
      · apply wp_bind
        apply wp_setPager
        apply wp_bind
        apply wp_read32bits
        · exact hdbSizeEnd
        · simp only [World.file, hnRec.get4 hlo hhi,
            hbody.cksumInit.get4 (Int.natCast_nonneg _) hck, hof,
            hbody.dbOrigSize.get4 (by omega) (by omega)]
          apply wp_bind
          apply wp_readHeaderSizes
          · exact hfile
          · exact hbody
          · apply wp_ite
            · intro hfalse
              simp at hfalse
            intro _
            apply wp_bind
            apply wp_setPager
            exact wp_pure hok
          · exact fun full => herr full _ ⟨_, _, rfl⟩
        · exact fun full => herr full _ ⟨_, _, rfl⟩
      · exact fun full => herr full _ ⟨_, _, rfl⟩
    · exact fun full => herr full _ ⟨_, _, rfl⟩
  · exact fun full => herr full _ ⟨_, _, rfl⟩

/-- Where no header is, nothing more is read. -/
theorem wp_readJournalHdr_end {isHot : Bool} {journalSize hdr : Int}
    {Q : Option (Int × Int) → World → Prop} (hhdr : journalHdrOffset G w.pager.journalOff = hdr)
    (hsize : journalSize ≤ w.jfd.now.size)
    (hend : hdr + G.sectorSize ≤ journalSize →
      (isHot = true ∨ hdr ≠ w.pager.journalHdr) ∧ ¬MagicAt w.jfd.now hdr)
    (hok : ∀ t, Moved w t → Q none t) (herr : ∀ full t, Moved w t → E (IoOutcome.code full) t) :
    wp (readJournalHdr G isHot journalSize) Q E w := by
  have hS := G.sectorSize_bounds
  apply wp_bind
  apply wp_setPager
  apply wp_bind
  apply wp_getPager
  simp only [hhdr]
  apply wp_ite
  · exact fun _ => wp_pure (hok _ ⟨_, _, rfl⟩)
  intro hroom
  obtain ⟨hlook, hno⟩ := hend (by omega)
  apply wp_bind
  apply wp_bind
  apply wp_getPager
  rw [if_pos hlook]
  apply wp_bind
  apply wp_sqlite3OsRead
  · have hin : hdr + 8 ≤ w.jfd.now.size := by omega
    simp only [World.file, hin, decide_true, if_true]
    apply wp_pure
    rw [if_pos]
    · exact wp_pure (hok _ ⟨_, _, rfl⟩)
    · rw [Bool.not_eq_true', Bool.eq_false_iff]
      exact fun hm => hno (isMagic_iff.mp hm)
  · exact fun full => herr full _ ⟨_, _, rfl⟩

/-- The random number that the checksums behind a header start from. -/
def headerCksum (f : ParentFile) (hdr : Int) : UInt32 :=
  UInt32.ofNat (sqlite3Get4byte fun k => f.byte (hdr + 12 + k)).toNat

theorem HeaderBody.headerCksum {f : ParentFile} {hdr : Int} {cksumInit : UInt32}
    (h : HeaderBody base f hdr cksumInit) : headerCksum f hdr = cksumInit := by
  have hck : (cksumInit.toNat : Int) < 4294967296 := by
    have := cksumInit.toNat_lt
    omega
  rw [SqliteFs.headerCksum, h.cksumInit.get4 (Int.natCast_nonneg _) hck, Int.toNat_natCast,
    UInt32.ofNat_toNat]

/-- Whatever is in the journal, reading a header only moves on, by a sector at
least, and only behind a magic or where none is looked for. -/
theorem wp_readJournalHdr_any {isHot : Bool} {journalSize hdr : Int}
    {Q : Option (Int × Int) → World → Prop} (hhdr : journalHdrOffset G w.pager.journalOff = hdr)
    (hsize : journalSize ≤ w.jfd.now.size) (hnone : ∀ t, Moved w t → Q none t)
    (hsome : ∀ nRec mxPg t, Moved w t → t.pager.journalOff = hdr + G.sectorSize →
      t.pager.cksumInit = headerCksum w.jfd.now hdr →
      hdr = w.pager.journalHdr ∨ MagicAt w.jfd.now hdr →
      hdr + G.sectorSize ≤ journalSize → Q (some (nRec, mxPg)) t)
    (herr : ∀ rc t, rc.isIoOrFull = true → Moved w t → E rc t) :
    wp (readJournalHdr G isHot journalSize) Q E w := by
  have hS := G.sectorSize_bounds
  apply wp_bind
  apply wp_setPager
  apply wp_bind
  apply wp_getPager
  simp only [hhdr]
  apply wp_ite
  · exact fun _ => wp_pure (hnone _ ⟨_, _, rfl⟩)
  intro hroom
  have hmagic : ∀ u, Moved w u → wp (readMagic isHot hdr) (fun found t => t = u ∧
      (found = true → hdr = w.pager.journalHdr ∨ MagicAt w.jfd.now hdr)) E u := by
    rintro u ⟨a, c, rfl⟩
    apply wp_bind
    apply wp_getPager
    apply wp_ite
    · intro _
      apply wp_bind
      apply wp_sqlite3OsRead
      · apply wp_ite
        · exact fun _ => wp_pure ⟨rfl, fun hm => Or.inr (isMagic_iff.mp hm)⟩
        · exact fun _ => wp_fail (herr _ _ rfl ⟨_, _, rfl⟩)
      · exact fun full => herr _ _ (IoOutcome.code_isIoOrFull full) ⟨_, _, rfl⟩
    · intro hlook
      exact wp_pure ⟨rfl, fun _ => Or.inl (not_not.mp (not_or.mp hlook).2)⟩
  have hsizes : ∀ u, Moved w u → wp (readHeaderSizes G hdr) (fun _ t => t = u) E u := by
    intro u hu
    apply wp_ite
    · intro _
      apply wp_bind
      apply wp_read32bits_any _ fun rc hrc => herr rc _ hrc hu
      intro _
      apply wp_bind
      apply wp_read32bits_any _ fun rc hrc => herr rc _ hrc hu
      exact fun _ => wp_pure rfl
    · exact fun _ => wp_pure rfl
  apply wp_bind
  apply wp_mono (hmagic _ ⟨_, _, rfl⟩) _ fun _ _ h => h
  rintro found t ⟨rfl, hfound⟩
  apply wp_ite
  · exact fun _ => wp_pure (hnone _ ⟨_, _, rfl⟩)
  intro hyes
  apply wp_bind
  apply wp_read32bits_any _ fun rc hrc => herr rc _ hrc ⟨_, _, rfl⟩
  intro _
  apply wp_bind
  have hin : hdr + 12 + 4 ≤ w.jfd.now.size := by omega
  apply wp_read32bits hin _ fun full => herr _ _ (IoOutcome.code_isIoOrFull full) ⟨_, _, rfl⟩
  apply wp_bind
  apply wp_setPager
  apply wp_bind
  apply wp_read32bits_any _ fun rc hrc => herr rc _ hrc ⟨_, _, rfl⟩
  intro _
  apply wp_bind
  apply wp_mono (hsizes _ ⟨_, _, rfl⟩) _ fun _ _ h => h
  rintro valid t rfl
  apply wp_ite
  · exact fun _ => wp_pure (hnone _ ⟨_, _, rfl⟩)
  intro _
  apply wp_bind
  apply wp_setPager
  apply wp_pure
  have hmagicAt := hfound (by simpa only [Bool.not_eq_true', Bool.not_eq_false] using hyes)
  exact hsome _ _ _ ⟨_, _, rfl⟩ rfl rfl hmagicAt (by omega)

end SqliteFs
