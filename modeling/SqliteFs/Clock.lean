import Mathlib.Tactic

/-!
The monotonic clock of base.c on Windows. `timeGetTime` and `GetTickCount` show
the low 32 bits of the millisecond counter. Where the system has no 64-bit
counter, the number of half turns the 32-bit one has made since the start is
kept in `_win32_tick_epoch`, and its lowest bit is compared with the highest
bit of each reading.
-/

namespace SqliteFs

/-- `_GetTickCount64 != NULL`, and `_win32_tick_epoch`. -/
structure Clock where
  hasTickCount64 : Bool
  tickEpoch : UInt32

namespace Clock

/-- `exported` says whether kernel32 has a `GetTickCount64`. -/
def clockWin32Init (exported : Bool) (tickCount : UInt32) : Clock := ⟨exported, tickCount >>> 31⟩

/-- The time in microseconds. `tickCount64` is what `GetTickCount64` returns if
it is called, `ticks32` what `timeGetTime` returns. -/
def getMonotonicTime (c : Clock) (tickCount64 : UInt64) (ticks32 : UInt32) : Int64 × Clock :=
  if c.hasTickCount64 then
    let ticks := tickCount64
    let ticksAs32bit := ticks.toUInt32
    let ticks :=
      if ticks32 - ticksAs32bit ≤ 2147483647 then ticks + (ticks32 - ticksAs32bit).toUInt64
      else ticks - (ticksAs32bit - ticks32).toUInt64
    ((ticks * 1000).toInt64, c)
  else
    let epoch := c.tickEpoch
    let epoch := if ticks32 >>> 31 ≠ epoch &&& 1 then epoch + 1 else epoch
    let ticks := ticks32.toUInt64 ||| epoch.toUInt64 <<< 31
    ((ticks * 1000).toInt64, { c with tickEpoch := epoch })

/-- A call of `get_monotonic_time`: the true count of milliseconds, and the
64-bit reading of it. -/
structure Call where
  count : Nat
  reading : Nat

/-- The calls with what they return, one after the other. -/
def monotonicTimes : Clock → List Call → List (Call × Int64)
  | _, [] => []
  | c, call :: calls =>
    let out := c.getMonotonicTime (.ofNat call.reading) (.ofNat call.count)
    (call, out.1) :: out.2.monotonicTimes calls

/-! ## The 64-bit counter -/

/-- A reading that is less than half a turn away is corrected to the count. -/
theorem corrected_eq {count reading : Nat} (hcount : count < 2 ^ 53)
    (hlo : reading ≤ count + 2147483647) (hhi : count ≤ reading + 2147483647) :
    (if UInt32.ofNat count - (UInt64.ofNat reading).toUInt32 ≤ 2147483647 then
        UInt64.ofNat reading + (UInt32.ofNat count - (UInt64.ofNat reading).toUInt32).toUInt64
      else
        UInt64.ofNat reading -
          ((UInt64.ofNat reading).toUInt32 - UInt32.ofNat count).toUInt64).toNat = count := by
  have hmax : (2147483647 : UInt32).toNat = 2147483647 := rfl
  split_ifs with hahead
  all_goals
    simp only [UInt32.le_iff_toNat_le, UInt64.toNat_add, UInt64.toNat_sub, UInt32.toNat_sub,
      UInt32.toNat_ofNat', UInt64.toNat_ofNat', UInt32.toNat_toUInt64, UInt64.toNat_toUInt32,
      hmax] at hahead ⊢
    omega

/-- The result is the count in microseconds, which fits. -/
theorem toInt_of_millis {ticks : UInt64} {millis : Nat} (hticks : ticks.toNat = millis)
    (hlt : millis < 2 ^ 53) : (ticks * 1000).toInt64.toInt = 1000 * (millis : Int) := by
  have hthousand : (1000 : UInt64).toNat = 1000 := rfl
  have hmul : (ticks * 1000).toNat = millis * 1000 := by
    rw [UInt64.toNat_mul, hticks, hthousand]
    exact Nat.mod_eq_of_lt (by omega)
  have hfits : 2 * (ticks * 1000).toBitVec.toNat < 2 ^ 64 := by
    rw [UInt64.toNat_toBitVec, hmul]
    omega
  calc (ticks * 1000).toInt64.toInt = (ticks * 1000).toBitVec.toInt := rfl
    _ = (ticks * 1000).toBitVec.toNat := BitVec.toInt_eq_toNat_of_lt hfits
    _ = 1000 * (millis : Int) := by
      rw [UInt64.toNat_toBitVec, hmul]
      omega

/-! ## The fallback -/

/-- Where the two fields overlap they agree. -/
theorem or_half_turns (x : Nat) : x % 2 ^ 32 ||| (x / 2 ^ 31) <<< 31 = x := by
  apply Nat.eq_of_testBit_eq
  intro i
  rw [Nat.testBit_or, Nat.testBit_mod_two_pow, Nat.testBit_shiftLeft, Nat.testBit_div_two_pow]
  by_cases hi : 31 ≤ i
  · simp [hi, Nat.sub_add_cancel hi]
  · have hlt : i < 32 := by omega
    simp [hi, hlt]

/-- The epoch counts the half turns from a multiple of a full turn on. -/
structure Counts (c : Clock) (base count : Nat) : Prop where
  fallback : c.hasTickCount64 = false
  aligned : base % 2 ^ 32 = 0
  base_le : base ≤ count
  epoch : c.tickEpoch.toNat = (count - base) / 2 ^ 31

theorem clockWin32Init_counts (count : Nat) :
    Counts (clockWin32Init false (.ofNat count)) (count - count % 2 ^ 32) count where
  fallback := rfl
  aligned := by omega
  base_le := by omega
  epoch := by
    have hshift : ((31 : UInt32).toNat % 32) = 31 := rfl
    simp only [clockWin32Init, UInt32.toNat_shiftRight, UInt32.toNat_ofNat', hshift,
      Nat.shiftRight_eq_div_pow]
    omega

variable {c : Clock} {base count count' : Nat}

/-- The highest bit of the reading is the parity of the half turns since `base`. -/
theorem highest_bit_eq (haligned : base % 2 ^ 32 = 0) (hbase : base ≤ count) :
    (UInt32.ofNat count >>> 31).toNat = (count - base) / 2 ^ 31 % 2 := by
  have hshift : ((31 : UInt32).toNat % 32) = 31 := rfl
  simp only [UInt32.toNat_shiftRight, UInt32.toNat_ofNat', hshift, Nat.shiftRight_eq_div_pow]
  omega

/-- The epoch after a reading that is less than half a turn after the last one. -/
theorem Counts.next_epoch (h : c.Counts base count) (hle : count ≤ count')
    (hnear : count' < count + 2 ^ 31) (hlt : count' < 2 ^ 53) :
    (if UInt32.ofNat count' >>> 31 ≠ c.tickEpoch &&& 1 then c.tickEpoch + 1
      else c.tickEpoch).toNat = (count' - base) / 2 ^ 31 := by
  have haligned := h.aligned
  have hbase := h.base_le
  have hepoch := h.epoch
  have hone : (1 : UInt32).toNat = 1 := rfl
  have hparity : (UInt32.ofNat count' >>> 31 = c.tickEpoch &&& 1) ↔
      (count' - base) / 2 ^ 31 % 2 = (count - base) / 2 ^ 31 % 2 := by
    rw [← UInt32.toNat_inj, highest_bit_eq haligned (by omega), UInt32.toNat_and, hone,
      Nat.and_one_is_mod, hepoch]
  split_ifs with hchanged
  · rw [ne_eq, hparity] at hchanged
    rw [UInt32.toNat_add, hepoch, hone]
    omega
  · rw [not_not, hparity] at hchanged
    rw [hepoch]
    omega

/-- A reading that is less than half a turn after the last one gives the time
since `base`. -/
theorem Counts.getMonotonicTime (h : c.Counts base count) (hle : count ≤ count')
    (hnear : count' < count + 2 ^ 31) (hlt : count' < 2 ^ 53) (tickCount64 : UInt64) :
    let out := c.getMonotonicTime tickCount64 (.ofNat count')
    out.1.toInt = 1000 * ((count' - base : Nat) : Int) ∧ out.2.Counts base count' := by
  have haligned := h.aligned
  have hbase := h.base_le
  have hepoch := h.next_epoch hle hnear hlt
  have hshift : ((31 : UInt64).toNat % 64) = 31 := rfl
  simp only [Clock.getMonotonicTime, h.fallback, Bool.false_eq_true, if_false]
  generalize (if UInt32.ofNat count' >>> 31 ≠ c.tickEpoch &&& 1 then c.tickEpoch + 1
    else c.tickEpoch) = epoch at hepoch ⊢
  have hfits : ((count' - base) / 2 ^ 31) <<< 31 < 2 ^ 64 := by
    rw [Nat.shiftLeft_eq]
    omega
  have hlow : count' % 2 ^ 32 = (count' - base) % 2 ^ 32 := by omega
  have hticks : ((UInt32.ofNat count').toUInt64 ||| epoch.toUInt64 <<< 31).toNat =
      count' - base := by
    rw [UInt64.toNat_or, UInt64.toNat_shiftLeft, UInt32.toNat_toUInt64, UInt32.toNat_toUInt64,
      hepoch, hshift, Nat.mod_eq_of_lt hfits, UInt32.toNat_ofNat', hlow, or_half_turns]
  constructor
  · exact toInt_of_millis hticks (by omega)
  · exact ⟨rfl, haligned, by omega, hepoch⟩

/-- Two consecutive readings are less than half a turn of the 32-bit counter apart. -/
def Near (count count' : Nat) : Prop := count ≤ count' ∧ count' < count + 2 ^ 31

/-- On the fallback path every result is the time since one fixed moment. -/
theorem Counts.monotonicTimes (h : c.Counts base count) {calls : List Call}
    (hlt : ∀ call ∈ calls, call.count < 2 ^ 53)
    (hnear : (count :: calls.map Call.count).IsChain Near) :
    ∀ out ∈ c.monotonicTimes calls, out.2.toInt = 1000 * ((out.1.count : Int) - base) := by
  induction calls generalizing c count with
  | nil =>
      intro out hout
      cases hout
  | cons call calls ih =>
      intro out hout
      rw [List.map_cons, List.isChain_cons_cons] at hnear
      have hcall := h.getMonotonicTime hnear.1.1 hnear.1.2 (hlt call List.mem_cons_self)
        (.ofNat call.reading)
      rcases List.mem_cons.mp hout with rfl | hout
      · exact hcall.1.trans (congrArg (1000 * ·) (Int.ofNat_sub hcall.2.base_le))
      · exact ih hcall.2 (fun call' hcall' => hlt call' (List.mem_cons_of_mem call hcall'))
          hnear.2 out hout

/-- With the 64-bit counter every result is the count itself. -/
theorem monotonicTimes_of_hasTickCount64 (hc : c.hasTickCount64 = true) {calls : List Call}
    (hlt : ∀ call ∈ calls, call.count < 2 ^ 53)
    (hreading : ∀ call ∈ calls, call.reading ≤ call.count + 2147483647 ∧
      call.count ≤ call.reading + 2147483647) :
    ∀ out ∈ c.monotonicTimes calls, out.2.toInt = 1000 * (out.1.count : Int) := by
  induction calls with
  | nil =>
      intro out hout
      cases hout
  | cons call calls ih =>
      intro out hout
      simp only [monotonicTimes, Clock.getMonotonicTime, hc, if_true] at hout
      rcases List.mem_cons.mp hout with rfl | hout
      · have hfirst := hreading call List.mem_cons_self
        have hcall := hlt call List.mem_cons_self
        exact toInt_of_millis (corrected_eq hcall hfirst.1 hfirst.2) hcall
      · exact ih (fun call' hcall' => hlt call' (List.mem_cons_of_mem call hcall'))
          (fun call' hcall' => hreading call' (List.mem_cons_of_mem call hcall')) out hout

/-- Whatever calls are made after the initialisation: on the fallback path any
two results are as far apart as the counts if consecutive readings are `Near`,
on the other path every result is the count if each reading is close to it. -/
theorem monotonic_time_exact (start : Nat) {calls : List Call}
    (hlt : ∀ call ∈ calls, call.count < 2 ^ 53) :
    ((start :: calls.map Call.count).IsChain Near →
      let outs := (clockWin32Init false (.ofNat start)).monotonicTimes calls
      ∀ out ∈ outs, ∀ out' ∈ outs,
        out'.2.toInt - out.2.toInt = 1000 * ((out'.1.count : Int) - out.1.count)) ∧
    ((∀ call ∈ calls, call.reading ≤ call.count + 2147483647 ∧
        call.count ≤ call.reading + 2147483647) →
      ∀ out ∈ (clockWin32Init true (.ofNat start)).monotonicTimes calls,
        out.2.toInt = 1000 * (out.1.count : Int)) := by
  constructor
  · intro hnear outs out hout out' hout'
    have hresult := (clockWin32Init_counts start).monotonicTimes hlt hnear
    rw [hresult out hout, hresult out' hout']
    ring
  · exact monotonicTimes_of_hasTickCount64 rfl hlt

/-- Three readings across the wrap of the 32-bit counter, the first of them in
its last second. -/
def acrossWrap : List Call :=
  [⟨4294967000, 4294966990⟩, ⟨4294967300, 4294967290⟩, ⟨6442450000, 6442450040⟩]

theorem monotonic_time_exact_across_wrap :
    let outs := (clockWin32Init false (.ofNat 4294960000)).monotonicTimes acrossWrap
    (outs.map fun out => out.2.toInt) = [4294967000000, 4294967300000, 6442450000000] ∧
      (∀ out ∈ outs, ∀ out' ∈ outs,
        out'.2.toInt - out.2.toInt = 1000 * ((out'.1.count : Int) - out.1.count)) ∧
      ∀ out ∈ (clockWin32Init true (.ofNat 4294960000)).monotonicTimes acrossWrap,
        out.2.toInt = 1000 * (out.1.count : Int) := by
  have hlt : ∀ call ∈ acrossWrap, call.count < 2 ^ 53 := by decide
  have hexact := monotonic_time_exact 4294960000 hlt
  refine ⟨by decide +kernel, hexact.1 ?_, hexact.2 ?_⟩
  · rw [acrossWrap]
    simp [Near]
  · decide

end Clock

end SqliteFs
