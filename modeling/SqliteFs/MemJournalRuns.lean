import SqliteFs.MemJournal

/-!
Runs of a journal that starts in memory. Whatever allocations and calls to the
real file fail, and whenever the journal moves to the real file, its callers
read what a plain file would give them.
-/

namespace SqliteFs

open Lib

namespace ParentFile

variable {g : ParentFile} {src : Bytes} {a b : Int}

theorem append_size (ha : 0 ≤ a) : (g.put src g.size a).size = g.size + a := by
  rw [put_size]
  omega

theorem put_nothing : g.put src g.size 0 = g := by
  apply ext_inside
  · rw [append_size le_rfl, add_zero]
  · intro i hi
    exact put_outside (by omega)

/-- Two pieces behind one another are one. -/
theorem append_append (ha : 0 ≤ a) (hb : 0 ≤ b) :
    (g.put src g.size a).put (fun i => src (a + i)) (g.size + a) b = g.put src g.size (a + b) := by
  apply ext_inside
  · simp only [put_size]
    omega
  · intro i hi
    simp only [put_size] at hi
    rcases lt_or_ge i (g.size + a) with hold | hnew
    · rw [put_outside (Or.inl hold)]
      rcases lt_or_ge i g.size with hin | hout
      · rw [put_outside (Or.inl hin), put_outside (Or.inl hin)]
      · rw [put_inside hout hold, put_inside hout (by omega)]
    · rw [put_inside hnew (by omega), put_inside (by omega) (by omega)]
      congr 1
      ring

theorem xWrite_rc {io : Outcome} (ha : 0 ≤ a) : (g.xWrite io src b a).1 = io.rc := by
  cases io with
  | done => rw [xWrite_done ha]; rfl
  | fails failure => rfl

theorem xRead_rc {io : Outcome} (ha : 0 ≤ a) (hend : a + b ≤ g.size) :
    (g.xRead io src b a).1 = io.rc := by
  cases io with
  | done => rw [xRead_inside ha hend]; rfl
  | fails failure => rfl

end ParentFile

/-! ## The chunks -/

section Chunks

variable {n base off s : Int} {g : ParentFile} {cs : List Bytes} {src : Bytes}

theorem length_extend : cs.length ≤ (MemJournal.extend off s src cs).length := by
  induction cs with
  | nil => exact Nat.zero_le _
  | cons c rest ih =>
      cases rest with
      | nil =>
          rw [MemJournal.extend]
          split_ifs
          · exact Nat.le_succ 1
          · exact le_rfl
      | cons d rest => exact Nat.succ_le_succ ih

/-- What is put behind the end of the chunks is behind the end of the file. -/
theorem Stored.extend (h : Stored n g base cs) (hbase : base ≤ g.size)
    (hoff : off = (g.size - base) % n) (hs : 0 < s) (hfit : off + s ≤ n) (hoff0 : 0 ≤ off) :
    Stored n (g.put src g.size s) base (MemJournal.extend off s src cs) := by
  have hsize : (g.put src g.size s).size = g.size + s := ParentFile.append_size hs.le
  -- a chunk with nothing in it but the new bytes
  have hfresh : ∀ c : Int, c = g.size → off = 0 →
      Stored n (g.put src g.size s) c [overlay (fun _ => 0) src 0 s] := by
    rintro c rfl rfl
    refine ⟨by omega, ?_, ?_⟩
    · intro i hlo hhi hin
      rw [overlay_inside hlo (by omega), ParentFile.put_inside (by omega) (by omega)]
      congr 1
      ring
    · change (g.put src g.size s).size ≤ g.size + n
      omega
  induction cs generalizing base with
  | nil =>
      have hend : g.size ≤ base := h
      have heq : base = g.size := le_antisymm hbase hend
      apply hfresh base heq
      rw [hoff, heq, sub_self, Int.zero_emod]
  | cons c rest ih =>
      obtain ⟨hlt, hbytes, hrest⟩ := h
      have hold : ∀ i, 0 ≤ i → i < n → base + i < g.size →
          c i = (g.put src g.size s).byte (base + i) := by
        intro i hlo hhi hin
        rw [ParentFile.put_outside (Or.inl hin)]
        exact hbytes i hlo hhi hin
      cases rest with
      | nil =>
          have hend : g.size ≤ base + n := hrest
          rw [MemJournal.extend]
          rcases eq_or_ne off 0 with hzero | hne
          · rw [if_pos hzero]
            have hfull : base + n = g.size := by
              rcases lt_or_eq_of_le hend with hless | heq
              · rw [Int.emod_eq_of_lt (by omega) (by omega)] at hoff
                omega
              · exact heq.symm
            refine ⟨by omega, fun i hlo hhi _ => hold i hlo hhi (by omega), hfresh _ hfull hzero⟩
          · rw [if_neg hne]
            have hplace : base + off = g.size := by
              rcases lt_or_eq_of_le hend with hless | heq
              · rw [Int.emod_eq_of_lt (by omega) (by omega)] at hoff
                omega
              · have hself : g.size - base = n := by omega
                rw [hself, Int.emod_self] at hoff
                exact absurd hoff hne
            refine ⟨by omega, ?_, ?_⟩
            · intro i hlo hhi hin
              rcases lt_or_ge i off with hbefore | hafter
              · rw [overlay_outside (Or.inl hbefore)]
                exact hold i hlo hhi (by omega)
              · rw [overlay_inside hafter (by omega),
                  ParentFile.put_inside (by omega) (by omega)]
                congr 1
                omega
            · change (g.put src g.size s).size ≤ base + n
              omega
      | cons d rest =>
          have hnext : base + n < g.size := hrest.1
          refine ⟨by omega, fun i hlo hhi _ => hold i hlo hhi (by omega), ih hrest hnext.le ?_⟩
          rw [hoff, ← sub_sub, Int.sub_emod_right]

/-- How much of the first chunk is in the file, and what follows it. -/
theorem Stored.piece {c : Bytes} {rest : List Bytes} (hn : 0 < n)
    (h : Stored n g base (c :: rest)) :
    ∃ m, (if base + n > g.size then g.size - base else n) = m ∧ 0 < m ∧ m ≤ n ∧
      base + m ≤ g.size ∧ Stored n g (base + m) rest ∧
      (m = n ∧ base + n ≤ g.size ∨ rest = [] ∧ base + m = g.size) := by
  obtain ⟨hlt, -, hrest⟩ := h
  split_ifs with hpast
  · cases rest with
    | nil =>
        refine ⟨_, rfl, by omega, by omega, by omega, ?_, Or.inr ⟨rfl, by omega⟩⟩
        change g.size ≤ base + (g.size - base)
        omega
    | cons d rest =>
        have hnext : base + n < g.size := hrest.1
        omega
  · exact ⟨_, rfl, hn, le_rfl, by omega, hrest, Or.inl ⟨rfl, by omega⟩⟩

/-- The chunks are all written when the device carries every write out, and
only then. -/
theorem createLoop_ok_iff {nChunk : Int} {io : Outcomes} {f : ParentFile} (hn : 0 < n)
    (h : Stored n g base cs) (hbase : 0 ≤ base) (hchunk : nChunk = n ∨ cs = []) :
    (MemJournal.createLoop nChunk g.size cs base io f).1 = .ok ↔
      ∀ k, k < cs.length → (io k).rc = .ok := by
  induction cs generalizing base nChunk io f with
  | nil => exact iff_of_true rfl fun k hk => absurd hk (Nat.not_lt_zero k)
  | cons c rest ih =>
      obtain rfl : nChunk = n := hchunk.resolve_right (List.cons_ne_nil c rest)
      obtain ⟨m, hm, hmpos, -, -, hstored, hcase⟩ := h.piece hn
      simp only [MemJournal.createLoop, hm, ParentFile.xWrite_rc hbase]
      have hrest : (MemJournal.createLoop m g.size rest (base + m) (fun k => io (k + 1))
          (f.xWrite (io 0) c m base).2).1 = .ok ↔ ∀ k, k < rest.length → (io (k + 1)).rc = .ok :=
        ih hstored (by omega) (hcase.imp (fun h => h.1) fun h => h.1)
      split_ifs with hput
      · rw [hrest]
        constructor
        · intro hall k hk
          cases k with
          | zero => exact hput
          | succ k => exact hall k (Nat.lt_of_succ_lt_succ hk)
        · exact fun hall k hk => hall (k + 1) (Nat.succ_lt_succ hk)
      · rw [ParentFile.xWrite_rc hbase]
        exact iff_of_false hput fun hall => hput (hall 0 (Nat.succ_pos _))

theorem createLoop_ok {nChunk : Int} {io : Outcomes} {f : ParentFile} (hn : 0 < n)
    (h : Stored n g base cs) (hbase : 0 ≤ base) (hchunk : nChunk = n ∨ cs = [])
    (hok : (MemJournal.createLoop nChunk g.size cs base io f).1 = .ok) :
    let out := (MemJournal.createLoop nChunk g.size cs base io f).2
    (∀ i, i < base → out.byte i = f.byte i) ∧
      (∀ i, base ≤ i → i < g.size → out.byte i = g.byte i) ∧
      (base < g.size → g.size ≤ out.size) := by
  induction cs generalizing base nChunk io f with
  | nil =>
      have hend : g.size ≤ base := h
      exact ⟨fun _ _ => rfl, fun i hlo hhi => by omega, fun hlt => by omega⟩
  | cons c rest ih =>
      obtain rfl : nChunk = n := hchunk.resolve_right (List.cons_ne_nil c rest)
      obtain ⟨m, hm, hmpos, hmle, hmend, hstored, hcase⟩ := h.piece hn
      obtain ⟨hlt, hbytes, hrest⟩ := h
      simp only [MemJournal.createLoop, hm] at hok ⊢
      split_ifs at hok ⊢ with hput
      · obtain ⟨-, hfile⟩ := ParentFile.xWrite_ok hput
        obtain ⟨hbefore, hafter, hsize⟩ := ih hstored (by omega)
          (hcase.imp (fun h => h.1) fun h => h.1) hok
        rw [hfile] at hbefore
        refine ⟨?_, ?_, ?_⟩
        · intro i hi
          rw [hfile, hbefore i (by omega), ParentFile.put_outside (Or.inl hi)]
        · intro i hlo hhi
          rcases lt_or_ge i (base + m) with hin | hout
          · rw [hfile, hbefore i hin, ParentFile.put_inside hlo hin,
              hbytes (i - base) (by omega) (by omega) (by omega)]
            congr 1
            ring
          · exact hafter i hout hhi
        · intro _
          rcases hcase with ⟨rfl, hfits⟩ | ⟨rfl, hfull⟩
          · rcases lt_or_eq_of_le hfits with hmore | heq
            · exact hsize hmore
            · cases rest with
              | nil =>
                  rw [hfile]
                  change g.size ≤ max f.size (base + m)
                  omega
              | cons d rest =>
                  have hnext : base + m < g.size := hrest.1
                  omega
          · rw [hfile]
            change g.size ≤ max f.size (base + m)
            omega
      · exact absurd hok hput

end Chunks

/-! ## One call -/

/-- The journal in memory holds the plain file `g`. Where the last read stopped
there is a chunk, and the next byte is in it. -/
structure InMemory (p : MemJournal) (g : ParentFile) : Prop where
  stored : Stored p.nChunkSize g 0 p.pFirst
  endOffset : p.endOffset = g.size
  readpoint : p.readOffset = 0 ∨ ∃ k : Nat, p.readChunk = some k ∧ k < p.pFirst.length ∧
    k * p.nChunkSize ≤ p.readOffset ∧ p.readOffset < k * p.nChunkSize + p.nChunkSize

/-- The journal holds the plain file `g`. A real file may be longer. -/
def JournalFile.HoldsPlain (s : JournalFile) (g : ParentFile) : Prop :=
  match s.memory with
  | some p => InMemory p g
  | none => g.size ≤ s.real.size ∧ ∀ i, 0 ≤ i → i < g.size → s.real.byte i = g.byte i

namespace InMemory

variable {p : MemJournal} {g : ParentFile} {iAmt iOfst : Int}

theorem startChunk (h : InMemory p g) (hofst : 0 ≤ iOfst) (hlt : iOfst < g.size) :
    ∃ k : Nat, p.startChunk iOfst = some k ∧ k < p.pFirst.length ∧
      k * p.nChunkSize ≤ iOfst ∧ iOfst < k * p.nChunkSize + p.nChunkSize := by
  unfold MemJournal.startChunk
  split_ifs with hseek
  · obtain ⟨j, hj, hmem, hfrom, hto⟩ := seekLoop_found (k := 0) h.stored hofst hlt
    rw [Nat.zero_add] at hj
    exact ⟨j, hj, hmem, by omega, by omega⟩
  · obtain ⟨hsame, hne⟩ := not_or.mp hseek
    have hofst' : p.readOffset = iOfst := not_not.mp hsame
    rcases h.readpoint with hzero | ⟨k, hk, hmem, hfrom, hto⟩
    · omega
    · exact ⟨k, hk, hmem, by omega, by omega⟩

/-- Going on where the last read stopped gives what a search from the start does. -/
theorem read (h : InMemory p g) (zBuf : Bytes) (hofst : 0 ≤ iOfst) (hamt : 0 < iAmt)
    (hend : iOfst + iAmt ≤ g.size) :
    ∃ p' buf, p.memjrnlRead zBuf iAmt iOfst = some (p', buf) ∧ InMemory p' g ∧
      ∀ k, 0 ≤ k → k < iAmt → buf k = g.byte (iOfst + k) := by
  obtain ⟨k, hk, hmem, hfrom, hto⟩ := h.startChunk hofst (by omega)
  have hstored := h.stored.drop hmem
  rw [zero_add] at hstored
  -- the offset inside chunk `k`
  have hmod : iOfst.tmod p.nChunkSize = iOfst - k * p.nChunkSize := by
    rw [Int.tmod_eq_emod_of_nonneg hofst, ← Int.sub_mul_emod_self_right iOfst k p.nChunkSize,
      Int.emod_eq_of_lt (by omega) (by omega)]
  have hoff : 0 ≤ iOfst.tmod p.nChunkSize := by omega
  obtain ⟨buf, pChunk, hcopy, -, hbytes, hstop⟩ := copyLoop_copies (k := k) p.nChunkSize_pos 0
    zBuf hstored hoff (by omega) hamt (by omega)
  refine ⟨{ p with
      readOffset := if pChunk.isSome then iOfst + iAmt else 0
      readChunk := pChunk }, buf, ?_, ⟨h.stored, h.endOffset, ?_⟩, ?_⟩
  · simp only [MemJournal.memjrnlRead, hk, Option.bind_eq_bind, Option.bind_some, hcopy]
    rfl
  · cases pChunk with
    | none => exact Or.inl rfl
    | some k' =>
        right
        obtain ⟨j, rfl, hlt, hfrom', hto'⟩ := hstop k' rfl
        have hplace : k * p.nChunkSize + j * p.nChunkSize = (k + j : Nat) * p.nChunkSize := by
          push_cast
          ring
        rw [hplace] at hfrom' hto'
        rw [List.length_drop] at hlt
        have hlength : k + j < p.pFirst.length := by omega
        refine ⟨k + j, rfl, hlength, ?_, ?_⟩
        · simp only [Option.isSome_some, if_true]
          omega
        · simp only [Option.isSome_some, if_true]
          omega
  · intro i hlo hhi
    rw [hbytes i hlo (by omega)]
    congr 1
    omega

/-- One round of a write. -/
theorem writeChunk (h : InMemory p g) (src : Bytes) (hamt : 0 < iAmt) :
    InMemory (p.writeChunk src iAmt) (g.put src g.size (p.iSpace iAmt)) := by
  have hpos := p.iSpace_pos hamt
  have hn := p.nChunkSize_pos
  have hmod : p.endOffset.tmod p.nChunkSize = (g.size - 0) % p.nChunkSize := by
    rw [h.endOffset, Int.tmod_eq_emod_of_nonneg g.size_nonneg, sub_zero]
  have hlo := Int.emod_nonneg (g.size - 0) hn.ne'
  have hfit : p.endOffset.tmod p.nChunkSize + p.iSpace iAmt ≤ p.nChunkSize := by
    unfold MemJournal.iSpace
    omega
  refine ⟨h.stored.extend g.size_nonneg hmod hpos hfit (by omega), ?_, ?_⟩
  · rw [ParentFile.append_size hpos.le, ← h.endOffset]
    rfl
  · exact h.readpoint.imp id fun ⟨k, hk, hmem, hplace⟩ =>
      ⟨k, hk, hmem.trans_le length_extend, hplace⟩

/-- Behind a round the chunks that are still needed are those needed before,
less the one of this round. -/
theorem allocated_next {n ofst amt s : Int} {malloc : Nat → Bool} (hn : 0 < n) (hs : 0 < s)
    (hspace : s = min amt (n - ofst % n)) (hthere : ofst % n = 0 → malloc 0 = true) :
    MemJournal.Allocated n ofst amt malloc ↔
      MemJournal.Allocated n (ofst + s) (amt - s) fun k => malloc (k + 1) := by
  have hparts := Int.mul_ediv_add_emod ofst n
  have hlo := Int.emod_nonneg ofst hn.ne'
  -- a round that fills its chunk ends where the next chunk begins
  have hend : s = n - ofst % n → ofst + s = (ofst / n + 1) * n := by
    intro hfull
    rw [hfull, add_mul, one_mul, mul_comm]
    omega
  have hlater : ∀ j, s = n - ofst % n → ofst + s ≤ j * n →
      (j - ofst / n).toNat = (j - (ofst + s) / n).toNat + 1 := by
    intro j hfull hfrom
    rw [hend hfull] at hfrom ⊢
    have hj : ofst / n + 1 ≤ j := le_of_mul_le_mul_right hfrom hn
    rw [Int.mul_ediv_cancel _ hn.ne']
    omega
  constructor
  · intro h j hfrom hto
    have hplace := hlater j (by omega) hfrom
    simp only
    rw [← hplace]
    exact h j (by omega) (by omega)
  · intro h j hfrom hto
    rcases lt_or_ge (j * n) (ofst + s) with hin | hout
    · have hle : j ≤ ofst / n := by
        by_contra hmore
        have hnext : (ofst / n + 1) * n ≤ j * n := mul_le_mul_of_nonneg_right (by omega) hn.le
        rw [add_mul, one_mul, mul_comm (ofst / n)] at hnext
        omega
      have hge : ofst / n ≤ j := by
        by_contra hless
        have hbefore : (j + 1) * n ≤ ofst / n * n := mul_le_mul_of_nonneg_right (by omega) hn.le
        rw [add_mul, one_mul, mul_comm (ofst / n)] at hbefore
        omega
      obtain rfl : j = ofst / n := le_antisymm hle hge
      rw [mul_comm] at hfrom
      rw [sub_self]
      exact hthere (by omega)
    · rw [hlater j (by omega) hout]
      exact h j hout (by omega)

/-- A write in memory is stored when its chunks are there, and only then. -/
theorem writeLoop_ok_iff (p : MemJournal) (hend : 0 ≤ p.endOffset) (malloc : Nat → Bool)
    (zBuf : Bytes) (zWrite nWrite : Int) :
    (p.writeLoop malloc zBuf zWrite nWrite).1 = .ok ↔
      MemJournal.Allocated p.nChunkSize p.endOffset nWrite malloc := by
  induction hsize : nWrite.toNat using Nat.strong_induction_on
    generalizing p malloc zWrite nWrite with
  | _ size ih =>
      have hmod : p.endOffset.tmod p.nChunkSize = p.endOffset % p.nChunkSize :=
        Int.tmod_eq_emod_of_nonneg hend
      rw [MemJournal.writeLoop]
      split_ifs with hmore hnomem
      · refine iff_of_false nofun fun hall => ?_
        -- the write begins with a chunk that is not there
        have hplace : p.endOffset / p.nChunkSize * p.nChunkSize = p.endOffset :=
          Int.ediv_mul_cancel (Int.dvd_of_emod_eq_zero (hmod ▸ hnomem.1))
        have hfirst := hall (p.endOffset / p.nChunkSize) hplace.ge (by omega)
        rw [sub_self, Int.toNat_zero, hnomem.2] at hfirst
        cases hfirst
      · have hpos := p.iSpace_pos hmore
        have hthere : p.endOffset % p.nChunkSize = 0 → malloc 0 = true := fun hzero =>
          Bool.eq_true_of_not_eq_false fun hfalse => hnomem ⟨hmod.trans hzero, hfalse⟩
        have hspace : p.iSpace nWrite = min nWrite (p.nChunkSize - p.endOffset % p.nChunkSize) := by
          rw [← hmod]
          rfl
        have hrest := ih (nWrite - p.iSpace nWrite).toNat (by omega)
          (p.writeChunk (fun i => zBuf (zWrite + i)) nWrite)
          (add_nonneg hend hpos.le) (fun k => malloc (k + 1)) (zWrite + p.iSpace nWrite)
          (nWrite - p.iSpace nWrite) rfl
        rw [hrest, allocated_next p.nChunkSize_pos hpos hspace hthere]
        rfl
      · refine iff_of_true rfl fun j hfrom hto => ?_
        omega

/-- Of a write that finds no memory a first part is stored, the rest is not. -/
theorem writeLoop (h : InMemory p g) (malloc : Nat → Bool) (zBuf : Bytes) (zWrite : Int)
    (hamt : 0 ≤ iAmt) :
    let out := p.writeLoop malloc zBuf zWrite iAmt
    ∃ n, 0 ≤ n ∧ n ≤ iAmt ∧ (out.1 = .ok → n = iAmt) ∧
      InMemory out.2 (g.put (fun i => zBuf (zWrite + i)) g.size n) := by
  induction hsize : iAmt.toNat using Nat.strong_induction_on
    generalizing p g malloc zWrite iAmt with
  | _ size ih =>
      have hnothing : InMemory p (g.put (fun i => zBuf (zWrite + i)) g.size 0) := by
        rw [ParentFile.put_nothing]
        exact h
      rw [MemJournal.writeLoop]
      split_ifs with hmore hnomem
      · exact ⟨0, le_rfl, hamt, nofun, hnothing⟩
      · have hpos := p.iSpace_pos hmore
        have hle : p.iSpace iAmt ≤ iAmt := min_le_left _ _
        obtain ⟨n, hn, hnle, hall, hrest⟩ := ih (iAmt - p.iSpace iAmt).toNat (by omega)
          (h.writeChunk (fun i => zBuf (zWrite + i)) hmore) (fun k => malloc (k + 1))
          (zWrite + p.iSpace iAmt) (by omega) rfl
        refine ⟨p.iSpace iAmt + n, by omega, by omega, fun hok => ?_, ?_⟩
        · have hn' := hall hok
          omega
        · have hsrc : (fun i => zBuf (zWrite + p.iSpace iAmt + i)) =
              fun i => zBuf (zWrite + (p.iSpace iAmt + i)) := by
            funext i
            rw [add_assoc]
          rw [hsrc, ParentFile.append_size hpos.le] at hrest
          rw [← ParentFile.append_append hpos.le hn]
          exact hrest
      · exact ⟨0, le_rfl, hamt, fun _ => by omega, hnothing⟩

end InMemory

namespace JournalFile

variable {s : JournalFile} {p : MemJournal} {g real : ParentFile} {zBuf : Bytes} {iAmt : Int}

/-- A write to the real file is stored, or leaves what is in the file alone. -/
theorem writeReal_plain (hsize : g.size ≤ real.size)
    (hbytes : ∀ i, 0 ≤ i → i < g.size → real.byte i = g.byte i) (hamt : 0 < iAmt)
    (io : Outcomes) :
    let out := writeReal real zBuf iAmt g.size io
    ∃ n, 0 ≤ n ∧ n ≤ iAmt ∧ (out.1 = .ok → n = iAmt) ∧
      out.2.HoldsPlain (g.put zBuf g.size n) := by
  intro out
  rcases em (out.1 = .ok) with hok | hfail
  · obtain ⟨-, hfile⟩ := ParentFile.xWrite_ok hok
    refine ⟨iAmt, hamt.le, le_rfl, fun _ => rfl, ?_⟩
    change (g.put zBuf g.size iAmt).size ≤ (real.xWrite (io 0) zBuf iAmt g.size).2.size ∧
      ∀ i, 0 ≤ i → i < (g.put zBuf g.size iAmt).size →
        (real.xWrite (io 0) zBuf iAmt g.size).2.byte i = (g.put zBuf g.size iAmt).byte i
    rw [hfile, ParentFile.append_size hamt.le]
    refine ⟨le_max_right _ _, fun i hlo hhi => ?_⟩
    rcases lt_or_ge i g.size with hin | hout
    · rw [ParentFile.put_outside (Or.inl hin), ParentFile.put_outside (Or.inl hin)]
      exact hbytes i hlo hin
    · rw [ParentFile.put_inside hout hhi, ParentFile.put_inside hout hhi]
  · refine ⟨0, le_rfl, hamt.le, fun hok => absurd hok hfail, ?_⟩
    rw [ParentFile.put_nothing]
    have hframe : ∀ i, 0 ≤ i → i < g.size →
        (real.xWrite (io 0) zBuf iAmt g.size).2.byte i = g.byte i := by
      intro i hlo hhi
      rw [ParentFile.xWrite_frame (Or.inl hhi)]
      exact hbytes i hlo hhi
    refine ⟨?_, hframe⟩
    have hnonneg := g.size_nonneg
    change g.size ≤ (real.xWrite (io 0) zBuf iAmt g.size).2.size
    cases io 0 with
    | done =>
        simp only [ParentFile.xWrite, if_neg (not_lt.mpr hnonneg)]
        exact hsize.trans (le_max_left _ _)
    | fails failure => exact hsize

/-- The real file takes the place of the chunks, or they stay. -/
theorem memjrnlCreateFile_plain (h : InMemory p g) (real : ParentFile) (io : Outcomes) :
    let out := memjrnlCreateFile p real io
    out.2.HoldsPlain g ∧ (out.1 = .ok → out.2.memory = none) := by
  unfold memjrnlCreateFile
  simp only
  split_ifs with hopen hcreate hdelete
  · rw [h.endOffset] at hcreate ⊢
    obtain ⟨-, hbytes, hsize⟩ :=
      createLoop_ok p.nChunkSize_pos h.stored le_rfl (Or.inl rfl) hcreate
    refine ⟨⟨?_, hbytes⟩, fun _ => rfl⟩
    rcases lt_or_ge 0 g.size with hpos | hempty
    · exact hsize hpos
    · exact hempty.trans (ParentFile.size_nonneg _)
  · exact ⟨h, fun hok => absurd hok hcreate⟩
  · exact ⟨h, fun hok => absurd hok hcreate⟩
  · exact ⟨h, fun hok => absurd hok hopen⟩

theorem memjrnlCreateFile_rc (real : ParentFile) (io : Outcomes) :
    (memjrnlCreateFile p real io).1 =
      if (io 0).rc = .ok then
        (MemJournal.createLoop p.nChunkSize p.endOffset p.pFirst 0 (fun k => io (k + 1)) real).1
      else (io 0).rc := by
  unfold memjrnlCreateFile
  rcases em ((io 0).rc = .ok) with hopen | hfail
  · simp only [if_pos hopen]
    split_ifs with hcreate
    · exact hcreate.symm
    · rfl
    · rfl
  · simp only [if_neg hfail]

theorem memjrnlCreateFile_ok_iff (h : InMemory p g) (real : ParentFile) (io : Outcomes) :
    (memjrnlCreateFile p real io).1 = .ok ↔ ∀ k, k ≤ p.pFirst.length → (io k).rc = .ok := by
  have hloop : (MemJournal.createLoop p.nChunkSize g.size p.pFirst 0 (fun k => io (k + 1))
      real).1 = .ok ↔ ∀ k, k < p.pFirst.length → (io (k + 1)).rc = .ok :=
    createLoop_ok_iff p.nChunkSize_pos h.stored le_rfl (Or.inl rfl)
  rw [memjrnlCreateFile_rc, h.endOffset]
  split_ifs with hopen
  · rw [hloop]
    constructor
    · intro hall k hk
      cases k with
      | zero => exact hopen
      | succ k => exact hall k hk
    · exact fun hall k hk => hall (k + 1) (Nat.succ_le_of_lt hk)
  · exact iff_of_false hopen fun hall => hopen (hall 0 (Nat.zero_le _))

theorem memjrnlWrite_ok_iff (h : InMemory p g) (real : ParentFile) (malloc : Nat → Bool)
    (io : Outcomes) :
    (memjrnlWrite p real zBuf iAmt g.size malloc io).1 = .ok ↔
      JournalFile.Granted ⟨some p, real⟩ (.write zBuf iAmt g.size malloc io) := by
  simp only [memjrnlWrite, Granted]
  split_ifs with hspill hcreate hok
  · rw [memjrnlCreateFile_ok_iff h] at hcreate
    simp only [writeReal, ParentFile.xWrite_rc g.size_nonneg]
    constructor
    · intro hlast k hk
      rcases Nat.lt_or_ge k (p.pFirst.length + 1) with hin | hout
      · exact hcreate k (Nat.le_of_lt_succ hin)
      · obtain rfl : k = 0 + 1 + p.pFirst.length := by omega
        exact hlast
    · exact fun hall => hall _ (by omega)
  · refine iff_of_false hcreate fun hall => hcreate ?_
    rw [memjrnlCreateFile_ok_iff h]
    exact fun k hk => hall k (by omega)
  · rw [InMemory.writeLoop_ok_iff p (h.endOffset ▸ g.size_nonneg), h.endOffset] at hok
    exact iff_of_true rfl hok
  · refine iff_of_false hok fun hall => hok ?_
    rw [InMemory.writeLoop_ok_iff p (h.endOffset ▸ g.size_nonneg), h.endOffset]
    exact hall

theorem memjrnlWrite_plain (h : InMemory p g) (real : ParentFile) (hamt : 0 < iAmt)
    (malloc : Nat → Bool) (io : Outcomes) :
    let out := memjrnlWrite p real zBuf iAmt g.size malloc io
    ∃ n, 0 ≤ n ∧ n ≤ iAmt ∧ (out.1 = .ok → n = iAmt) ∧
      out.2.HoldsPlain (g.put zBuf g.size n) := by
  unfold memjrnlWrite
  simp only
  split_ifs with hspill hcreate hok
  · obtain ⟨hplain, hnone⟩ := memjrnlCreateFile_plain h real io
    have hmemory := hnone hcreate
    simp only [HoldsPlain, hmemory] at hplain
    exact writeReal_plain hplain.1 hplain.2 hamt _
  · obtain ⟨hplain, -⟩ := memjrnlCreateFile_plain h real io
    refine ⟨0, le_rfl, hamt.le, fun hok => absurd hok hcreate, ?_⟩
    rw [ParentFile.put_nothing]
    exact hplain
  · obtain ⟨n, hn, hle, hall, hrest⟩ := h.writeLoop malloc zBuf 0 hamt.le
    simp only [zero_add] at hrest
    exact ⟨n, hn, hle, fun _ => hall hok, ⟨hrest.stored, hrest.endOffset, hrest.readpoint⟩⟩
  · obtain ⟨n, hn, hle, -, hrest⟩ := h.writeLoop malloc zBuf 0 hamt.le
    simp only [zero_add] at hrest
    exact ⟨n, hn, hle, fun hrc => absurd hrc hok, hrest⟩

/-- Every call is answered as the plain file would, and no null pointer is
followed. It succeeds when what it needs is there, and only then. -/
theorem HoldsPlain.step (h : s.HoldsPlain g) {c : MemCall} (hallowed : c.Allowed g) :
    ∃ t rc buf, s.step c = some (t, rc, buf) ∧ (rc = .ok ↔ s.Granted c) ∧ c.Answered g rc buf ∧
      ∃ g', c.Plain g rc g' ∧ t.HoldsPlain g' := by
  obtain ⟨memory, real⟩ := s
  cases c with
  | write zBuf iAmt iOfst malloc io =>
      obtain ⟨rfl, hamt⟩ := hallowed
      cases memory with
      | some p =>
          obtain ⟨n, hn, hle, hall, hrest⟩ := memjrnlWrite_plain h real hamt malloc io
          exact ⟨_, _, _, rfl, memjrnlWrite_ok_iff h real malloc io, trivial, _,
            ⟨n, hn, hle, hall, rfl⟩, hrest⟩
      | none =>
          obtain ⟨n, hn, hle, hall, hrest⟩ := writeReal_plain h.1 h.2 hamt io
          refine ⟨_, _, _, rfl, ?_, trivial, _, ⟨n, hn, hle, hall, rfl⟩, hrest⟩
          simp only [writeReal, ParentFile.xWrite_rc g.size_nonneg, Granted]
  | read zBuf iAmt iOfst io =>
      obtain ⟨hofst, hamt, hend⟩ := hallowed
      cases memory with
      | some p =>
          have hp : InMemory p g := h
          obtain ⟨p', buf, hread, hp', hbytes⟩ := hp.read zBuf hofst hamt hend
          refine ⟨⟨some p', real⟩, .ok, buf, ?_, iff_of_true rfl (Or.inl rfl), fun _ => hbytes,
            g, rfl, hp'⟩
          simp only [JournalFile.step, hread, Option.map_some]
      | none =>
          have hin : iOfst + iAmt ≤ real.size := hend.trans h.1
          refine ⟨_, _, _, rfl, ?_, ?_, g, rfl, h⟩
          · rw [ParentFile.xRead_rc hofst hin]
            exact (or_iff_right Bool.false_ne_true).symm
          intro hok k hlo hhi
          cases hio : io 0 with
          | done =>
              change (real.xRead .done zBuf iAmt iOfst).2 k = _
              rw [ParentFile.xRead_inside hofst hin]
              have hbyte : overlay zBuf (fun k => real.byte (iOfst + k)) 0 iAmt k =
                  real.byte (iOfst + (k - 0)) := overlay_inside hlo (by omega)
              rw [sub_zero, h.2 _ (by omega) (by omega)] at hbyte
              exact hbyte
          | fails failure =>
              rw [hio] at hok
              exact absurd hok failure.rc_ne_ok
  | truncate io =>
      cases memory with
      | some p =>
          exact ⟨_, _, _, rfl, iff_of_true rfl (Or.inl rfl), trivial, .blank, rfl,
            ⟨le_rfl, rfl, Or.inl rfl⟩⟩
      | none =>
          refine ⟨_, _, _, rfl, (or_iff_right Bool.false_ne_true).symm, trivial, _, rfl, ?_⟩
          split_ifs with hok
          · refine ⟨ParentFile.size_nonneg _, ?_⟩
            intro i hlo hhi
            exact absurd hhi (not_lt.mpr hlo)
          · exact h

/-! ## Runs -/

/-- Where nothing is refused, no call wants for anything. -/
theorem granted_of_carried (s : JournalFile) {c : MemCall} (h : c.Carried) : s.Granted c := by
  obtain ⟨memory, real⟩ := s
  cases c with
  | write zBuf iAmt iOfst malloc io =>
      cases memory with
      | some p =>
          simp only [Granted]
          split_ifs
          · exact fun k _ => congrArg Outcome.rc (h.2 k)
          · exact fun _ _ _ => h.1 _
      | none => exact congrArg Outcome.rc (h.2 0)
  | read => exact Or.inr (congrArg Outcome.rc (h 0))
  | truncate => exact Or.inr (congrArg Outcome.rc (h 0))

/-- Along the calls, as far as they are allowed, every answer is that of a plain
file that the same calls were made to, and a call fails only for want of what it
needs. -/
def Faithful : JournalFile → ParentFile → List MemCall → Prop
  | _, _, [] => True
  | s, g, c :: calls => c.Allowed g → ∃ t rc buf, s.step c = some (t, rc, buf) ∧
      (rc = .ok ↔ s.Granted c) ∧ c.Answered g rc buf ∧
        ∃ g', c.Plain g rc g' ∧ Faithful t g' calls

theorem HoldsPlain.faithful (h : s.HoldsPlain g) (calls : List MemCall) : Faithful s g calls := by
  induction calls generalizing s g with
  | nil => trivial
  | cons c calls ih =>
      intro hallowed
      obtain ⟨t, rc, buf, hstep, hok, hanswer, g', hplain, ht⟩ := h.step hallowed
      exact ⟨t, rc, buf, hstep, hok, hanswer, g', hplain, ih ht⟩

end JournalFile

end SqliteFs
