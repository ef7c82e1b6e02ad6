import SqliteFs.Seeking

/-!
What a write of the driver transfers. The length that `xwrite_win32` hands to
`WriteFile` is the offset of the call and not its size, so the right bytes are
stored only where the two are the same number.
-/

namespace SqliteFs

open Lib

namespace Drive

/-- The write takes the first `size` bytes of `buf` to `offset` and does nothing
else, however the device ends the transfer. The file pointer tells how many
bytes were taken. -/
structure TransfersBuffer (d : Drive) (fd : Int) (buf : Bytes) (size offset : Int) : Prop where
  frame : ∀ io i, i < offset ∨ offset + size ≤ i →
    (d.xwriteWin32 fd io buf size offset).2.file.byte i = d.file.byte i
  reads : ∀ io buf', (∀ k, 0 ≤ k → k < size → buf' k = buf k) →
    d.xwriteWin32 fd io buf' size offset = d.xwriteWin32 fd io buf size offset
  taken : ∀ io, (d.xwriteWin32 fd io buf size offset).2.filePointer fd ≤ offset + size
  success : ∀ io, (d.xwriteWin32 fd io buf size offset).1 = STORAGE_SUCCESS ↔
    offset + size ≤ (d.xwriteWin32 fd io buf size offset).2.filePointer fd
  stored : ∀ io, (d.xwriteWin32 fd io buf size offset).1 = STORAGE_SUCCESS →
    ∀ k, 0 ≤ k → k < size →
      (d.xwriteWin32 fd io buf size offset).2.file.byte (offset + k) = buf k
  completes : ∀ io, io.Ideal → (d.xwriteWin32 fd io buf size offset).1 = STORAGE_SUCCESS
  readBack : ∀ io io' buf' n start, io'.Ideal → 0 < n → offset ≤ start →
    start + n ≤ offset + size →
    (d.xwriteWin32 fd io buf size offset).1 = STORAGE_SUCCESS →
    let read := (d.xwriteWin32 fd io buf size offset).2.xreadWin32 fd io' buf' n start
    read.1 = STORAGE_SUCCESS ∧ ∀ k, 0 ≤ k → k < n → read.2.1 k = buf (start - offset + k)

variable {d : Drive} {fd : Int} {io : Transfer} {buf : Bytes} {size offset : Int}

/-- A write that starts at its offset takes as many bytes as the offset says. -/
theorem xwrite_positioned (hpos : d.Positioned (.xwrite fd io buf size offset))
    (hlo : 0 ≤ offset) (hhi : offset < 2147483648) :
    (d.xwriteWin32 fd io buf size offset).2 =
      ⟨d.file.overwrite buf offset (io.bytes offset),
        Function.update d.filePointer fd (offset + io.bytes offset), offset⟩ := by
  have hstart : d.startsAt (.xwrite fd io buf size offset) = offset := hpos
  have huint : uint32 offset = offset := uint32_of_bounds hlo (by omega)
  rw [xwrite_startsAt, hstart, huint]

/-- The file pointer ends behind the bytes that were taken. -/
theorem xwrite_pointer (hpos : d.Positioned (.xwrite fd io buf size offset))
    (hlo : 0 ≤ offset) (hhi : offset < 2147483648) :
    (d.xwriteWin32 fd io buf size offset).2.filePointer fd = offset + io.bytes offset := by
  rw [xwrite_positioned hpos hlo hhi]
  exact Function.update_self ..

/-- Success means that as many bytes as the size says were taken. -/
theorem xwrite_success_iff (hlo : 0 ≤ offset) (hhi : offset < 2147483648) (hsize : 0 < size)
    (hsizeLt : size < 2147483648) :
    (d.xwriteWin32 fd io buf size offset).1 = STORAGE_SUCCESS ↔ size ≤ io.bytes offset := by
  have huint : uint32 offset = offset := uint32_of_bounds hlo (by omega)
  have huint' : uint32 size = size := uint32_of_bounds hsize.le (by omega)
  simp only [xwriteWin32, huint, huint', STORAGE_SUCCESS, STORAGE_COMMUNICATION_ERROR]
  split_ifs with hless
  · exact iff_of_false (by intro h; cases h) (not_le.mpr hless)
  · exact iff_of_true rfl (not_lt.mp hless)

end Drive

theorem Transfer.bytes_le (io : Transfer) {n : Int} (hn : 0 ≤ n) : io.bytes n ≤ n :=
  max_le hn (min_le_right _ _)

theorem Transfer.Ideal.bytes_eq {io : Transfer} (hio : io.Ideal) {n : Int} (hlo : 0 ≤ n)
    (hhi : n < 4294967296) : io.bytes n = n := by
  have hbytes := hio.bytes_uint32 n
  rwa [uint32_of_bounds hlo hhi] at hbytes

namespace ParentFile

/-- Bytes put over a part of the file are there afterwards. -/
theorem overwrite_inside {f : ParentFile} {src : Bytes} {off len i : Int} (hlo : off ≤ i)
    (hhi : i < off + len) (hsize : i < f.size) :
    (f.overwrite src off len).byte i = src (i - off) := by
  simp only [overwrite, if_pos hsize]
  exact overlay_inside hlo hhi

/-- Only the bytes that are put over the file are looked at. -/
theorem overwrite_congr {f : ParentFile} {src src' : Bytes} {off len : Int}
    (h : ∀ k, 0 ≤ k → k < len → src' k = src k) :
    f.overwrite src' off len = f.overwrite src off len := by
  have hoverlay : overlay f.byte src' off len = overlay f.byte src off len := by
    funext i
    unfold overlay
    split_ifs with hin
    · exact h (i - off) (by omega) (by omega)
    · rfl
  simp only [overwrite, hoverlay]

end ParentFile

namespace Drive

variable {d : Drive} {fd : Int} {io : Transfer} {buf : Bytes} {size offset : Int}

/-- Where the offset is the size, the driver's write is right. -/
theorem transfersBuffer_of_eq (hpos : ∀ io buf, d.Positioned (.xwrite fd io buf size size))
    (hsize : 0 < size) (hend : size + size < 2147483648) (hdevice : size + size ≤ d.file.size) :
    d.TransfersBuffer fd buf size size := by
  have hlt : size < 2147483648 := by omega
  have hdrive := fun io buf => xwrite_positioned (hpos io buf) hsize.le hlt
  have hsuccess : ∀ io, (d.xwriteWin32 fd io buf size size).1 = STORAGE_SUCCESS →
      io.bytes size = size := by
    intro io hok
    apply le_antisymm (io.bytes_le hsize.le)
    exact (xwrite_success_iff hsize.le hlt hsize hlt).mp hok
  have hstored : ∀ io, (d.xwriteWin32 fd io buf size size).1 = STORAGE_SUCCESS →
      ∀ k, 0 ≤ k → k < size →
        (d.xwriteWin32 fd io buf size size).2.file.byte (size + k) = buf k := by
    intro io hok k hk hkLt
    rw [hdrive, hsuccess io hok]
    rw [ParentFile.overwrite_inside (Int.le_add_of_nonneg_right hk)
      (Int.add_lt_add_left hkLt size) (by omega), add_sub_cancel_left]
  constructor
  case frame =>
    intro io i hout
    have hle := io.bytes_le hsize.le
    rw [hdrive]
    exact ParentFile.overwrite_outside (by omega)
  case reads =>
    intro io buf' hsame
    have hle := io.bytes_le hsize.le
    apply Prod.ext
    · rfl
    · rw [hdrive, hdrive]
      rw [ParentFile.overwrite_congr (fun k hk hkLt => hsame k hk (by omega))]
  case taken =>
    intro io
    have hle := io.bytes_le hsize.le
    rw [xwrite_pointer (hpos io buf) hsize.le hlt]
    omega
  case success =>
    intro io
    rw [xwrite_success_iff hsize.le hlt hsize hlt, xwrite_pointer (hpos io buf) hsize.le hlt]
    exact (Int.add_le_add_iff_left size).symm
  case stored => exact hstored
  case completes =>
    intro io hio
    rw [xwrite_success_iff hsize.le hlt hsize hlt, hio.bytes_eq hsize.le (by omega)]
  case readBack =>
    intro io io' buf' n start hio' hn hstart hin hok
    have hread : ((d.xwriteWin32 fd io buf size size).2.xread fd io' buf' n start).1 = .ok :=
      xread_ideal hio'
    refine ⟨hread, ?_⟩
    intro k hk hkLt
    have hgot := xread_ok (by omega) (by omega) hn.le (by omega) hread hk hkLt
    calc ((d.xwriteWin32 fd io buf size size).2.xread fd io' buf' n start).2.1 k
        = (d.xwriteWin32 fd io buf size size).2.file.byte (size + (start - size + k)) := by
          rw [hgot]
          congr 1
          omega
      _ = buf (start - size + k) := hstored io hok _ (by omega) (by omega)

/-- A positioned write on a device with room for it transfers exactly its
buffer if and only if its offset is the number of its size. -/
theorem transfers_buffer_iff (hpos : ∀ io buf, d.Positioned (.xwrite fd io buf size offset))
    (hsize : 0 < size) (hofst : 0 ≤ offset) (hend : offset < 2147483648 - size)
    (hdevice : offset + size ≤ d.file.size) :
    d.TransfersBuffer fd buf size offset ↔ offset = size := by
  constructor
  · intro htransfers
    -- a device that transfers whatever it is asked for takes `offset` bytes
    have hio : Transfer.Ideal ⟨true, 4294967296⟩ := ⟨rfl, le_refl _⟩
    have htaken := htransfers.taken ⟨true, 4294967296⟩
    have hall := (htransfers.success ⟨true, 4294967296⟩).mp (htransfers.completes _ hio)
    rw [xwrite_pointer (hpos _ buf) hofst (by omega), hio.bytes_eq hofst (by omega)] at htaken hall
    omega
  · rintro rfl
    exact transfersBuffer_of_eq hpos hsize (by omega) hdevice

/-- A device of 4096 zeros whose file pointers are all at `offset`. -/
def zeros (offset : Int) : Drive :=
  ⟨⟨4096, fun _ => 0, by decide, fun _ _ => rfl⟩, fun _ => offset, 0⟩

theorem zeros_positioned (offset : Int) (hlo : 0 ≤ offset) (hhi : offset < 2147483648)
    (fd : Int) (io : Transfer) (buf : Bytes) (size : Int) :
    (zeros offset).Positioned (.xwrite fd io buf size offset) := by
  simp only [Positioned, startsAt]
  split_ifs
  · rw [setFilePointer_eq hlo hhi]
    exact Function.update_self ..
  · rfl

/-- The second sector of a device is written right. -/
theorem transfers_buffer_iff_second_sector :
    (zeros 512).TransfersBuffer 3 (fun _ => 1) 512 512 := by
  have hpos := fun io buf => zeros_positioned 512 (by decide) (by decide) 3 io buf 512
  exact (transfers_buffer_iff hpos (by decide) (by decide) (by decide) (by decide)).mpr rfl

/-- A sector written at 1024 spills over the next one, and the byte that formats
the end of a blob of 4096 bytes is taken for a request of 4095. -/
theorem sector_write_spills :
    (∀ io buf, (zeros 1024).Positioned (.xwrite 3 io buf 512 1024)) ∧
      ((zeros 1024).xwriteWin32 3 ⟨true, 4294967296⟩ (fun _ => 1) 512 1024).2.file.byte 1536 = 1 ∧
      ¬(zeros 1024).TransfersBuffer 3 (fun _ => 1) 512 1024 ∧
      ((zeros 4095).xwriteWin32 3 ⟨true, 4294967296⟩ (fun _ => 0) 1 4095).2.filePointer 3 = 8190 ∧
      ¬(zeros 4095).TransfersBuffer 3 (fun _ => 0) 1 4095 := by
  have hpos := fun io buf => zeros_positioned 1024 (by decide) (by decide) 3 io buf 512
  refine ⟨hpos, by decide +kernel, ?_, by decide +kernel, ?_⟩
  · intro htransfers
    have hframe := htransfers.frame ⟨true, 4294967296⟩ 1536 (Or.inr (le_refl _))
    exact absurd hframe (by decide +kernel)
  · intro htransfers
    exact absurd (htransfers.taken ⟨true, 4294967296⟩) (by decide +kernel)

end Drive

end SqliteFs
