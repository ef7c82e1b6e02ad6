import SqliteFs.Medium

/-!
`time_val_add` of base.c. A negative amount is negated before it is taken away
second by second, and of all amounts one has no negative: the least `int32_t`.
What signed overflow does is left open, by a function that says what becomes
of the result of each operation.
-/

namespace SqliteFs

abbrev USEC_PER_SEC : Int := 1000000

/-- `n_timeval_t`. -/
structure TimeVal where
  tvSec : Int
  tvUsec : Int
  deriving DecidableEq, Repr

/-- An operation of C on `int32_t`, from its mathematical result: one that
fits is kept, and if anything comes of another it is an `int32_t`. -/
structure SignedResult (int : Int → Option Int) : Prop where
  fits : ∀ {x}, -2147483648 ≤ x → x < 2147483648 → int x = some x
  range : ∀ {x y}, int x = some y → -2147483648 ≤ y ∧ y < 2147483648

/-- Signed overflow is an error. -/
def checked (x : Int) : Option Int :=
  if -2147483648 ≤ x ∧ x < 2147483648 then some x else none

/-- Signed overflow wraps, as it does in practice. -/
def wrapped (x : Int) : Option Int := some (int32 x)

theorem signedResult_checked : SignedResult checked where
  fits hlo hhi := if_pos ⟨hlo, hhi⟩
  range := by
    intro x y hresult
    obtain ⟨hbounds, heq⟩ := Option.ite_none_right_eq_some.mp hresult
    obtain rfl := Option.some.inj heq
    exact hbounds

theorem signedResult_wrapped : SignedResult wrapped where
  fits hlo hhi := congrArg some (int32_of_bounds hlo hhi)
  range := by
    intro x y hresult
    obtain rfl := Option.some.inj hresult
    exact int32_range x

/-- `none` is an error on the way. `/` and `%` of C round towards zero. -/
def timeValAdd (int : Int → Option Int) (time : TimeVal) (microseconds : Int) :
    Option TimeVal :=
  if microseconds ≥ 0 then do
    let tvUsec ← int (time.tvUsec + microseconds.tmod USEC_PER_SEC)
    let tvSec ← int (time.tvSec + microseconds.tdiv USEC_PER_SEC)
    if tvUsec ≥ USEC_PER_SEC then
      let tvUsec ← int (tvUsec - USEC_PER_SEC)
      let tvSec ← int (tvSec + 1)
      return ⟨tvSec, tvUsec⟩
    else return ⟨tvSec, tvUsec⟩
  else do
    let microseconds ← int (microseconds * -1)
    let tvUsec ← int (time.tvUsec - microseconds.tmod USEC_PER_SEC)
    let tvSec ← int (time.tvSec - microseconds.tdiv USEC_PER_SEC)
    if tvUsec < 0 then
      let tvUsec ← int (tvUsec + USEC_PER_SEC)
      let tvSec ← int (tvSec - 1)
      return ⟨tvSec, tvUsec⟩
    else return ⟨tvSec, tvUsec⟩

namespace TimeVal

/-- The time in microseconds. -/
def micros (time : TimeVal) : Int := time.tvSec * 1000000 + time.tvUsec

structure Normalised (time : TimeVal) : Prop where
  nonneg : 0 ≤ time.tvUsec
  lt : time.tvUsec < 1000000

/-- A normalised time from which every `int32_t` of microseconds leads to
seconds that are an `int32_t`. -/
structure Roomy (time : TimeVal) : Prop extends Normalised time where
  above : -2147483648 + 2148 ≤ time.tvSec
  below : time.tvSec ≤ 2147483647 - 2148

end TimeVal

/-- The sum is computed without an error, normalised and exact. -/
def AddsExactly (int : Int → Option Int) (time : TimeVal) (microseconds : Int) : Prop :=
  ∃ time', timeValAdd int time microseconds = some time' ∧ time'.Normalised ∧
    time'.micros = time.micros + microseconds

/-- Whole seconds and the rest have the sign of the amount. -/
theorem tdiv_tmod_of_micros (n : Int) :
    USEC_PER_SEC * n.tdiv USEC_PER_SEC + n.tmod USEC_PER_SEC = n ∧
      (0 ≤ n → 0 ≤ n.tmod USEC_PER_SEC ∧ n.tmod USEC_PER_SEC < 1000000) ∧
      (n ≤ 0 → -1000000 < n.tmod USEC_PER_SEC ∧ n.tmod USEC_PER_SEC ≤ 0) := by
  have hpos : (0 : Int) < USEC_PER_SEC := by decide
  refine ⟨Int.mul_tdiv_add_tmod n USEC_PER_SEC, ?_, ?_⟩
  · intro hnonneg
    exact ⟨Int.tmod_nonneg _ hnonneg, Int.tmod_lt_of_pos n hpos⟩
  · intro hnonpos
    have hneg := Int.tmod_nonneg USEC_PER_SEC (Int.neg_nonneg_of_nonpos hnonpos)
    rw [Int.neg_tmod] at hneg
    exact ⟨Int.lt_tmod_of_pos n hpos, Int.nonpos_of_neg_nonneg hneg⟩

section

variable {int : Int → Option Int} (hint : SignedResult int) {time : TimeVal}
  (htime : time.Roomy) {microseconds : Int}
include hint htime

theorem timeValAdd_forward (hnonneg : 0 ≤ microseconds) (hlt : microseconds < 2147483648) :
    AddsExactly int time microseconds := by
  obtain ⟨⟨husec, husecLt⟩, habove, hbelow⟩ := htime
  obtain ⟨hsplit, hrest, -⟩ := tdiv_tmod_of_micros microseconds
  obtain ⟨hrestNonneg, hrestLt⟩ := hrest hnonneg
  simp only [USEC_PER_SEC] at hsplit hrestNonneg hrestLt
  unfold AddsExactly timeValAdd
  simp only [if_pos hnonneg, USEC_PER_SEC]
  set seconds := microseconds.tdiv 1000000
  set rest := microseconds.tmod 1000000
  rw [hint.fits (x := time.tvUsec + rest) (by omega) (by omega),
    hint.fits (x := time.tvSec + seconds) (by omega) (by omega)]
  simp only [Option.bind_eq_bind, Option.bind_some]
  split_ifs with hcarry
  · rw [hint.fits (x := time.tvUsec + rest - 1000000) (by omega) (by omega),
      hint.fits (x := time.tvSec + seconds + 1) (by omega) (by omega)]
    refine ⟨_, rfl, ⟨?_, ?_⟩, ?_⟩
    all_goals
      simp only [TimeVal.micros]
      omega
  · refine ⟨_, rfl, ⟨?_, ?_⟩, ?_⟩
    all_goals
      simp only [TimeVal.micros]
      omega

/-- Whatever `int32_t` the negated amount comes out as, that much is taken away. -/
theorem timeValAdd_back (hneg : microseconds < 0) {negated : Int}
    (hnegated : int (microseconds * -1) = some negated) :
    ∃ time', timeValAdd int time microseconds = some time' ∧
      (0 ≤ negated → time'.Normalised) ∧ time'.micros = time.micros - negated := by
  obtain ⟨hlo, hhi⟩ := hint.range hnegated
  obtain ⟨⟨husec, husecLt⟩, habove, hbelow⟩ := htime
  obtain ⟨hsplit, hforward, hback⟩ := tdiv_tmod_of_micros negated
  simp only [USEC_PER_SEC] at hsplit hforward hback
  unfold timeValAdd
  simp only [if_neg (not_le.mpr hneg), hnegated, USEC_PER_SEC, Option.bind_eq_bind,
    Option.bind_some]
  set seconds := negated.tdiv 1000000
  set rest := negated.tmod 1000000
  rw [hint.fits (x := time.tvUsec - rest) (by omega) (by omega),
    hint.fits (x := time.tvSec - seconds) (by omega) (by omega)]
  simp only [Option.bind_some]
  split_ifs with hborrow
  · rw [hint.fits (x := time.tvUsec - rest + 1000000) (by omega) (by omega),
      hint.fits (x := time.tvSec - seconds - 1) (by omega) (by omega)]
    refine ⟨_, rfl, fun hnonneg => ⟨?_, ?_⟩, ?_⟩
    all_goals
      simp only [TimeVal.micros]
      omega
  · refine ⟨_, rfl, fun hnonneg => ⟨?_, ?_⟩, ?_⟩
    all_goals
      simp only [TimeVal.micros]
      omega

/-- Of the `int32_t` amounts, all but the least are added exactly, whatever
signed overflow does. -/
theorem addsExactly_iff (hlo : -2147483648 ≤ microseconds) (hhi : microseconds < 2147483648) :
    AddsExactly int time microseconds ↔ microseconds ≠ -2147483648 := by
  constructor
  · rintro ⟨time', hadd, -, hmicros⟩ hleast
    cases hnegated : int (microseconds * -1) with
    | none =>
        unfold timeValAdd at hadd
        rw [if_neg (by omega), hnegated] at hadd
        cases hadd
    | some negated =>
        -- the amount taken away is an `int32_t`, and 2147483648 is none
        have hrange := hint.range hnegated
        obtain ⟨back, hback, -, htaken⟩ := timeValAdd_back hint htime (by omega) hnegated
        obtain rfl := Option.some.inj (hback.symm.trans hadd)
        omega
  · intro hne
    rcases le_or_gt 0 microseconds with hnonneg | hneg
    · exact timeValAdd_forward hint htime hnonneg hhi
    · have hnegated : int (microseconds * -1) = some (microseconds * -1) :=
        hint.fits (by omega) (by omega)
      obtain ⟨time', hadd, hnorm, hmicros⟩ := timeValAdd_back hint htime hneg hnegated
      exact ⟨time', hadd, hnorm (by omega), by omega⟩

end

/-- Where overflow wraps, the least amount is its own negative: the time goes
forward by as much as it should go back. -/
theorem timeValAdd_wrapped_least {time : TimeVal} (htime : time.Roomy) :
    ∃ time', timeValAdd wrapped time (-2147483648) = some time' ∧
      time'.micros = time.micros + 2147483648 := by
  obtain ⟨time', hadd, -, hmicros⟩ :=
    timeValAdd_back signedResult_wrapped htime (show (-2147483648 : Int) < 0 by decide) rfl
  exact ⟨time', hadd, hmicros⟩

/-- `time_val_add` is exact and normalises for every `int32_t` amount but the
least, with no overflow on the way. Nor does it come out right where
overflow wraps. -/
theorem timeValAdd_exact_iff {time : TimeVal} (htime : time.Roomy) {microseconds : Int}
    (hlo : -2147483648 ≤ microseconds) (hhi : microseconds ≤ 2147483647) :
    (AddsExactly checked time microseconds ↔ microseconds ≠ -2147483648) ∧
      (AddsExactly wrapped time microseconds ↔ microseconds ≠ -2147483648) := by
  have hlt : microseconds < 2147483648 := Int.lt_add_one_of_le hhi
  exact ⟨addsExactly_iff signedResult_checked htime hlo hlt,
    addsExactly_iff signedResult_wrapped htime hlo hlt⟩

/-- 5000 seconds. -/
def fiveThousand : TimeVal := ⟨5000, 0⟩

theorem fiveThousand_roomy : fiveThousand.Roomy :=
  ⟨⟨by decide, by decide⟩, by decide, by decide⟩

/-- One second and a microsecond back, with a borrow. -/
theorem timeValAdd_exact_iff_borrow : AddsExactly checked fiveThousand (-1000001) :=
  (timeValAdd_exact_iff fiveThousand_roomy (by decide) (by decide)).1.mpr (by decide)

/-- The least amount overflows when it is negated, and if that wraps the time
goes forward. -/
theorem least_amount_overflows :
    fiveThousand.Roomy ∧ timeValAdd checked fiveThousand (-2147483648) = none ∧
      ¬AddsExactly checked fiveThousand (-2147483648) ∧
      timeValAdd wrapped fiveThousand (-2147483648) = some ⟨7147, 483648⟩ ∧
      ¬AddsExactly wrapped fiveThousand (-2147483648) := by
  have hnot {int} (hint : SignedResult int) : ¬AddsExactly int fiveThousand (-2147483648) := by
    intro hadds
    exact (addsExactly_iff hint fiveThousand_roomy (by decide) (by decide)).mp hadds rfl
  exact ⟨fiveThousand_roomy, by decide, hnot signedResult_checked, by decide,
    hnot signedResult_wrapped⟩

end SqliteFs
