import SqliteFs.Device
import SqliteFs.Lib.Run

/-!
Where the transfers of the drive start. A read always sets the file pointer. A
write leaves it alone when the offset is `last_offset + size`, which is right
only if the last transfer of this very handle ended there: `last_offset` is
that of the last call on any handle, and the start of its transfer.
-/

namespace SqliteFs

open Lib

/-- A call of the driver, with how the device ends its transfer. -/
inductive DriveCall where
  | xread (fd : Int) (io : Transfer) (buf : Bytes) (size offset : Int)
  | xwrite (fd : Int) (io : Transfer) (buf : Bytes) (size offset : Int)

namespace DriveCall

/-- The sizes and offsets of the driver's callers. -/
structure InRange (size offset : Int) : Prop where
  sizePos : 0 < size
  sizeLt : size < 2147483648
  ofst : 0 ≤ offset
  ofstLt : offset < 2147483648

def Ranged : DriveCall → Prop
  | .xread _ _ _ size offset => InRange size offset
  | .xwrite _ _ _ size offset => InRange size offset

end DriveCall

namespace Drive

/-- A process that has made no transfer yet. -/
def unused (file : ParentFile) : Drive := ⟨file, fun _ => 0, 0⟩

def next (d : Drive) : DriveCall → Option Drive
  | .xread fd io buf size offset => some (d.xreadWin32 fd io buf size offset).2.2
  | .xwrite fd io buf size offset => some (d.xwriteWin32 fd io buf size offset).2

/-- The file pointer that the call's `ReadFile` or `WriteFile` starts at. -/
def startsAt (d : Drive) : DriveCall → Int
  | .xread fd _ _ _ offset => (d.setFilePointer fd offset).filePointer fd
  | .xwrite fd _ _ size offset =>
    (if offset ≠ uint32 (d.lastOffset + size) then d.setFilePointer fd offset
      else d).filePointer fd

/-- The transfer starts at the offset that the call asks for. -/
def Positioned (d : Drive) : DriveCall → Prop
  | .xread fd io buf size offset => d.startsAt (.xread fd io buf size offset) = offset
  | .xwrite fd io buf size offset => d.startsAt (.xwrite fd io buf size offset) = offset

section

variable {d : Drive} {fd : Int} {io : Transfer} {buf : Bytes} {size offset : Int}

theorem setFilePointer_eq (hlo : 0 ≤ offset) (hhi : offset < 2147483648) :
    d.setFilePointer fd offset =
      { d with filePointer := Function.update d.filePointer fd offset } := by
  have hint : int32 offset = offset := int32_of_bounds (by omega) hhi
  unfold setFilePointer
  rw [hint, if_pos hlo]

theorem setFilePointer_file (d : Drive) (fd offset : Int) :
    (d.setFilePointer fd offset).file = d.file := by
  unfold setFilePointer
  split_ifs
  · rfl
  · rfl

/-- Setting the pointer of a handle leaves those of the others. -/
theorem setFilePointer_update (d : Drive) (fd offset x : Int) :
    Function.update (d.setFilePointer fd offset).filePointer fd x =
      Function.update d.filePointer fd x := by
  unfold setFilePointer
  split_ifs
  · exact Function.update_idem ..
  · rfl

/-- A read delivers the bytes from where it starts and moves the pointer behind them. -/
theorem xread_startsAt (d : Drive) (fd : Int) (io : Transfer) (buf : Bytes) (size offset : Int) :
    let start := d.startsAt (.xread fd io buf size offset)
    let moved := io.bytes (uint32 size)
    (d.xreadWin32 fd io buf size offset).2 =
      (overlay buf (fun k => d.file.byte (start + k)) 0 moved,
        ⟨d.file, Function.update d.filePointer fd (start + moved), uint32 offset⟩) := by
  simp only [xreadWin32, readFile, startsAt, setFilePointer_file, setFilePointer_update]

/-- A write stores its bytes from where it starts and moves the pointer behind them. -/
theorem xwrite_startsAt (d : Drive) (fd : Int) (io : Transfer) (buf : Bytes) (size offset : Int) :
    let start := d.startsAt (.xwrite fd io buf size offset)
    let moved := io.bytes (uint32 offset)
    (d.xwriteWin32 fd io buf size offset).2 =
      ⟨d.file.overwrite buf start moved, Function.update d.filePointer fd (start + moved),
        uint32 offset⟩ := by
  simp only [xwriteWin32, writeFile, startsAt]
  split_ifs
  · simp only [setFilePointer_file, setFilePointer_update]
  · rfl

end

end Drive

/-! ## What the calls so far asked for -/

/-- The offset of the last call, and where the last transfer on each handle was
to end: the offset it asked for and as many bytes as the device moved. -/
structure Asked where
  last : Int
  ends : Int → Int

namespace Asked

def none : Asked := ⟨0, fun _ => 0⟩

def next (g : Asked) : DriveCall → Option Asked
  | .xread fd io _ size offset =>
    some ⟨offset, Function.update g.ends fd (offset + io.bytes (uint32 size))⟩
  | .xwrite fd io _ _ offset =>
    some ⟨offset, Function.update g.ends fd (offset + io.bytes (uint32 offset))⟩

/-- A write at the last offset plus its own size is on a handle whose last
transfer was to end there. -/
def SeekHarmless (g : Asked) : DriveCall → Prop
  | .xread .. => True
  | .xwrite fd _ _ size offset => offset = g.last + size → g.ends fd = offset

end Asked

/-- As long as every transfer is positioned, the driver is where the calls asked it to be. -/
structure Follows (d : Drive) (g : Asked) : Prop where
  last : d.lastOffset = g.last
  ends : ∀ fd, d.filePointer fd = g.ends fd
  lastNonneg : 0 ≤ g.last
  lastLt : g.last < 2147483648

section

variable {d : Drive} {g : Asked} {c : DriveCall}

/-- A read is always positioned, a write if it seeks or the skipped seek is harmless. -/
theorem Follows.positioned_iff (hg : Follows d g) (hc : c.Ranged) :
    d.Positioned c ↔ g.SeekHarmless c := by
  cases c with
  | xread fd io buf size offset =>
      simp only [Drive.Positioned, Drive.startsAt, Asked.SeekHarmless, iff_true]
      rw [Drive.setFilePointer_eq hc.ofst hc.ofstLt]
      exact Function.update_self ..
  | xwrite fd io buf size offset =>
      have hlo := hg.lastNonneg
      have hhi := hg.lastLt
      have hsizePos := hc.sizePos
      have hsizeLt := hc.sizeLt
      have hsum : uint32 (d.lastOffset + size) = g.last + size := by
        rw [hg.last]
        exact uint32_of_bounds (by omega) (by omega)
      simp only [Drive.Positioned, Drive.startsAt, Asked.SeekHarmless, hsum]
      split_ifs with hseek
      · rw [Drive.setFilePointer_eq hc.ofst hc.ofstLt]
        exact iff_of_true (Function.update_self ..) (fun heq => absurd heq hseek)
      · rw [hg.ends fd]
        exact (imp_iff_right (not_not.mp hseek)).symm

/-- A transfer of a positioned call ends where the call was to end. -/
theorem Follows.moved (hg : Follows d g) {fd offset moved : Int} (hlo : 0 ≤ offset)
    (hhi : offset < 2147483648) (file : ParentFile) :
    Follows ⟨file, Function.update d.filePointer fd (offset + moved), uint32 offset⟩
      ⟨offset, Function.update g.ends fd (offset + moved)⟩ where
  last := uint32_of_bounds hlo (by omega)
  ends := by
    intro fd'
    have hpointers : d.filePointer = g.ends := funext hg.ends
    simp only [hpointers]
  lastNonneg := hlo
  lastLt := hhi

/-- After a positioned call the driver is still where the calls asked it to be. -/
theorem Follows.next (hg : Follows d g) (hc : c.Ranged) (hpositioned : d.Positioned c) :
    Option.Rel Follows (d.next c) (g.next c) := by
  cases c with
  | xread fd io buf size offset =>
      have hstart : d.startsAt (.xread fd io buf size offset) = offset := hpositioned
      simp only [Drive.next, Drive.xread_startsAt, hstart]
      exact .some (hg.moved hc.ofst hc.ofstLt _)
  | xwrite fd io buf size offset =>
      have hstart : d.startsAt (.xwrite fd io buf size offset) = offset := hpositioned
      simp only [Drive.next, Drive.xwrite_startsAt, hstart]
      exact .some (hg.moved hc.ofst hc.ofstLt _)

end

/-- In every sequence of calls every transfer is positioned exactly when every
write that skips its seek is on a handle whose last transfer ended there. -/
theorem positioned_iff_seek_harmless {calls : List DriveCall} (hcalls : ∀ c ∈ calls, c.Ranged)
    (file : ParentFile) :
    Along Drive.next Drive.Positioned (Drive.unused file) calls ↔
      Along Asked.next Asked.SeekHarmless Asked.none calls := by
  have hcond : ∀ d g c, Follows d g → c.Ranged → (d.Positioned c ↔ g.SeekHarmless c) :=
    fun d g c hg hc => hg.positioned_iff hc
  have hkeep : ∀ d g c, Follows d g → c.Ranged → d.Positioned c →
      Option.Rel Follows (d.next c) (g.next c) := fun d g c hg hc hp => hg.next hc hp
  apply Along.congr hcond hkeep hcalls
  exact ⟨rfl, fun _ => rfl, le_refl 0, by decide⟩

/-- A read of `size` bytes from the start, then a write of 512 bytes at 512. -/
def readThenWrite (size : Int) : List DriveCall :=
  [.xread 3 ⟨true, 4294967296⟩ (fun _ => 0) size 0,
    .xwrite 3 ⟨true, 4294967296⟩ (fun _ => 0) 512 512]

theorem readThenWrite_ranged {size : Int} (hpos : 0 < size) (hlt : size < 2147483648) :
    ∀ c ∈ readThenWrite size, c.Ranged := by
  intro c hc
  fin_cases hc
  · exact ⟨hpos, hlt, by decide, by decide⟩
  · exact ⟨by decide, by decide, by decide, by decide⟩

theorem positioned_iff_seek_harmless_sector :
    Along Drive.next Drive.Positioned (Drive.unused .blank) (readThenWrite 512) := by
  apply (positioned_iff_seek_harmless (readThenWrite_ranged (by decide) (by decide)) .blank).mpr
  refine ⟨trivial, fun g hg => ⟨?_, fun _ _ => trivial⟩⟩
  obtain rfl := Option.some.inj hg
  intro _
  decide +kernel

/-- Behind a longer read the write starts at 1024. -/
theorem write_behind_longer_read :
    (∀ c ∈ readThenWrite 1024, c.Ranged) ∧
      ¬Along Drive.next Drive.Positioned (Drive.unused .blank) (readThenWrite 1024) := by
  refine ⟨readThenWrite_ranged (by decide) (by decide), ?_⟩
  intro halong
  obtain ⟨d, hnext⟩ : ∃ d, (Drive.unused .blank).next
      (.xread 3 ⟨true, 4294967296⟩ (fun _ => 0) 1024 0) = some d := ⟨_, rfl⟩
  have hpositioned : d.startsAt (.xwrite 3 ⟨true, 4294967296⟩ (fun _ => 0) 512 512) = 512 :=
    (halong.2 d hnext).1
  have hstart : ((Drive.unused .blank).next (.xread 3 ⟨true, 4294967296⟩ (fun _ => 0) 1024 0)).map
      (fun d => d.startsAt (.xwrite 3 ⟨true, 4294967296⟩ (fun _ => 0) 512 512)) = some 1024 := by
    decide +kernel
  rw [hnext, Option.map_some, hpositioned] at hstart
  exact absurd hstart (by decide)

end SqliteFs
