import MarketAggregator.DecimalFigures

/-!
# How large the figures get

Prices between two limits, so many samples and so much volume and turnover in a bucket bound
every sum over the buckets of a window and over the windows of all venues. The bounds are whole
numbers, or numbers of smallest places, so no rounding passes them however often it is done. A
quotient is a mean of what is summed up, or a difference of prices in basis points of a price.
-/

namespace FigureBounds

open DecimalFigures DecimalRounding Decimals DepthAudit FaithfulRounding MarketEvents OrderBook
  WindowBuckets

/-- Bounds on prices, and on the samples, the volume and the turnover of a bucket, that leave
room for the sums over so many buckets. The least price and the least quantity of a print are
one unit in the last of some places. -/
structure Limits (buckets : Nat) where
  digits : Nat
  most : Nat
  samples : Nat
  volume : Nat
  turnover : Nat
  places : Nat
  few_digits : digits ≤ 28
  few_places : places ≤ 28
  some_price : 1 ≤ most
  ratio : 10000 * most * 10 ^ digits ≤ ceiling
  mean : 10000 * most * 10 ^ midScale ≤ ceiling
  sampled : 10000 * (buckets * samples * most) ≤ ceiling
  traded : buckets * (turnover + volume) * 10 ^ places ≤ ceiling

namespace Limits

variable {n : Nat} (l : Limits n)

def least : ℚ := 1 / 10 ^ l.digits

def lot : ℚ := 1 / 10 ^ l.places

def Priced (x : ℚ) : Prop := l.least ≤ x ∧ x ≤ l.most

theorem least_pos : 0 < l.least := by
  rw [least]
  positivity

theorem lot_pos : 0 < l.lot := by
  rw [lot]
  positivity

/-- Prices are small, however often they are added up to ten thousand of them. -/
theorem times_most {k : Nat} (few : k ≤ 10000) : k * l.most ≤ ceiling := by
  have scale : 1 ≤ 10 ^ l.digits := Nat.one_le_pow _ _ (by norm_num)
  calc k * l.most ≤ 10000 * l.most := Nat.mul_le_mul_right _ few
    _ ≤ 10000 * l.most * 10 ^ l.digits := Nat.le_mul_of_pos_right _ scale
    _ ≤ ceiling := l.ratio

theorem fits_times {k : Nat} {x : ℚ} (few : k ≤ 10000) (small : |x| ≤ k * l.most) : Fits x := by
  have room : ((k * l.most : Nat) : ℚ) ≤ ceiling := by exact_mod_cast l.times_most few
  rw [Nat.cast_mul] at room
  exact fits_of_le (small.trans room)

end Limits

variable {n : Nat} {l : Limits n} {r : Rounding}

section Prices

variable {bid ask x y : ℚ}

/-- What is in basis points of something that is not too small. -/
theorem bps_fits {c bound : Nat} {low : ℚ} (small : |x| ≤ c) (room : 10000 * c ≤ ceiling)
    (positive : 0 < low) (large : low ≤ y) (enough : (10000 * c : ℚ) ≤ bound * low)
    (whole : bound ≤ ceiling) : ∀ q ∈ bpsFigures r x y, Fits q := by
  have scaled : |x * 10000| ≤ (10000 * c : Nat) := by
    rw [abs_mul, abs_of_pos (by norm_num : (0 : ℚ) < 10000), mul_comm, Nat.cast_mul]
    exact mul_le_mul_of_nonneg_left small (by norm_num)
  obtain ⟨fits, product⟩ := fits_within (r.mul_faithful x 10000) room scaled
  have below : (bound : ℚ) ≤ ceiling := by exact_mod_cast whole
  have quotient : |r.mul x 10000 / y| ≤ ceiling := by
    have some_y : 0 < y := positive.trans_le large
    have share := mul_le_mul below large positive.le (Nat.cast_nonneg ceiling)
    rw [Nat.cast_mul] at product
    rw [abs_div, abs_of_pos some_y, div_le_iff₀ some_y]
    exact product.trans (enough.trans share)
  simp only [bpsFigures, List.mem_cons, List.not_mem_nil, or_false]
  rintro q (rfl | rfl)
  · exact fits
  · exact fits_of_le quotient

/-- A difference of prices in basis points of a price. -/
theorem price_bps_fits (small : |x| ≤ l.most) (priced : l.Priced y) :
    ∀ q ∈ bpsFigures r x y, Fits q := by
  have enough : (10000 * l.most : ℚ) ≤ (10000 * l.most * 10 ^ l.digits : Nat) * l.least := by
    push_cast
    rw [Limits.least, mul_one_div, mul_div_cancel_right₀ _ (by positivity)]
  exact bps_fits small (l.times_most le_rfl) l.least_pos priced.1 enough l.ratio

theorem difference_le (first : l.Priced x) (second : l.Priced y) : |x - y| ≤ l.most := by
  have positive := l.least_pos
  obtain ⟨lowx, highx⟩ := first
  obtain ⟨lowy, highy⟩ := second
  rw [abs_le]
  constructor <;> linarith

/-- The difference of two prices, and what it is rounded to. -/
theorem difference_fits (r : Rounding) (first : l.Priced x) (second : l.Priced y) :
    Fits (x - y) ∧ |r.sub x y| ≤ l.most := by
  have whole := l.times_most (show 1 ≤ 10000 by norm_num)
  rw [one_mul] at whole
  exact fits_within (r.sub_faithful x y) whole (difference_le first second)

/-- The middle of two prices is a price, however it is rounded. -/
theorem mid_fits (r : Rounding) (first : l.Priced x) (second : l.Priced y) :
    Fits (x + y) ∧ Fits (r.add x y / 2) ∧ l.Priced (r.div (r.add x y) 2) := by
  have whole := l.times_most (show 2 ≤ 10000 by norm_num)
  have most := l.times_most (show 1 ≤ 10000 by norm_num)
  rw [one_mul] at most
  have two : ((2 : Nat) : ℚ) / 10 ^ l.digits = 2 * l.least := by
    rw [Limits.least, mul_one_div, Nat.cast_ofNat]
  have one : ((1 : Nat) : ℚ) / 10 ^ l.digits = l.least := by rw [Limits.least, Nat.cast_one]
  have pair := mem_fraction (k := 2) (by norm_num [ceiling]) l.few_digits
  have unit := mem_fraction (k := 1) (by norm_num [ceiling]) l.few_digits
  rw [two] at pair
  rw [one] at unit
  have sum : 2 * l.least ≤ x + y ∧ x + y ≤ (2 * l.most : Nat) := by
    push_cast
    exact ⟨by linarith [first.1, second.1], by linarith [first.2, second.2]⟩
  obtain ⟨fits, low, high⟩ := fits_between (r.add_faithful x y) pair (mem_natCast whole) sum
  push_cast at high
  have middle : l.least ≤ r.add x y / 2 ∧ r.add x y / 2 ≤ l.most :=
    ⟨by linarith, by linarith⟩
  obtain ⟨half, priced⟩ := fits_between (r.div_faithful _ 2) unit (mem_natCast most) middle
  exact ⟨fits, half, priced⟩

theorem spread_fits (priced : l.Priced bid) (offered : l.Priced ask) :
    ∀ q ∈ spreadFigures r bid ask, Fits q := by
  obtain ⟨apart, -⟩ := difference_fits r offered priced
  obtain ⟨sum, half, -⟩ := mid_fits r offered priced
  simp only [spreadFigures, List.mem_cons, List.not_mem_nil, or_false]
  rintro q (rfl | rfl | rfl)
  · exact apart
  · exact sum
  · exact half

theorem guard_fits {best : Price} (priced : l.Priced (valueOf best.decimal)) (side : Side) :
    ∀ q ∈ guardFigures r best side AuditPolicy.default.guardBps, Fits q := by
  have positive := l.least_pos
  obtain ⟨low, high⟩ := priced
  have bps : AuditPolicy.default.guardBps.toNat = 10 := rfl
  have whole := l.times_most (show 10 ≤ 10000 by norm_num)
  have most := l.times_most (show 1 ≤ 10000 by norm_num)
  rw [one_mul] at most
  have scaled : (0 : ℚ) ≤ valueOf best.decimal * 10 ∧
      valueOf best.decimal * 10 ≤ (10 * l.most : Nat) := by
    push_cast
    exact ⟨by linarith, by linarith⟩
  obtain ⟨product, above, below⟩ := fits_between (r.mul_faithful _ 10) mem_zero
    (mem_natCast whole) scaled
  push_cast at below
  have share : (0 : ℚ) ≤ r.mul (valueOf best.decimal) 10 / 10000 ∧
      r.mul (valueOf best.decimal) 10 / 10000 ≤ l.most :=
    ⟨by linarith, by linarith⟩
  obtain ⟨quotient, started, ended⟩ := fits_between (r.div_faithful _ 10000) mem_zero
    (mem_natCast most) share
  simp only [guardFigures, bps, Nat.cast_ofNat, List.mem_cons, List.not_mem_nil, or_false]
  rintro q (rfl | rfl | rfl)
  · exact product
  · exact quotient
  · have two : (2 : Nat) ≤ 10000 := by norm_num
    cases side with
    | bid => exact l.fits_times two (abs_le.mpr (by push_cast; constructor <;> linarith))
    | ask => exact l.fits_times two (abs_le.mpr (by push_cast; constructor <;> linarith))

end Prices

section Means

/-- The numbers of some places. -/
def multiples (places : Nat) : Set ℚ := Set.range (fun k : Int => (k : ℚ) / 10 ^ places)

theorem mem_multiples_natCast (places k : Nat) : (k : ℚ) ∈ multiples places := by
  refine ⟨k * 10 ^ places, ?_⟩
  push_cast
  exact mul_div_cancel_right₀ _ (by positivity)

theorem mem_multiples_neg {places : Nat} {x : ℚ} (own : x ∈ multiples places) :
    -x ∈ multiples places := by
  obtain ⟨k, rfl⟩ := own
  refine ⟨-k, ?_⟩
  push_cast
  exact neg_div _ _

theorem roundDp_mem (places : Nat) (q : ℚ) : roundDp places q ∈ multiples places := ⟨_, rfl⟩

/-- Rounding to some places passes no number of that many places. -/
theorem roundDp_faithful (places : Nat) (q : ℚ) :
    Faithful (multiples places) q (roundDp places q) := by
  have unit : (0 : ℚ) < 10 ^ places := by positivity
  constructor
  · rintro d ⟨k, rfl⟩ below
    dsimp only at below ⊢
    rw [div_le_iff₀ unit] at below
    have floor : k ≤ (q * 10 ^ places).floor := Rat.le_floor_iff.mpr below
    rw [roundDp]
    apply div_le_div_of_nonneg_right _ unit.le
    rw [Int.cast_le]
    split
    · exact floor
    · split
      · omega
      · split <;> omega
  · rintro d ⟨k, rfl⟩ above
    dsimp only at above ⊢
    rw [le_div_iff₀ unit] at above
    have low := Rat.floor_le (q * 10 ^ places)
    have floor : (q * 10 ^ places).floor ≤ k := by exact_mod_cast low.trans above
    have next : 1 / 2 ≤ q * 10 ^ places - (q * 10 ^ places).floor →
        (q * 10 ^ places).floor + 1 ≤ k := by
      intro rest
      have less : ((q * 10 ^ places).floor : ℚ) < k := by linarith
      exact_mod_cast less
    rw [roundDp]
    apply div_le_div_of_nonneg_right _ unit.le
    rw [Int.cast_le]
    split
    · exact floor
    · rename_i rest
      have more := next (not_lt.mp rest)
      split
      · exact more
      · split <;> omega

/-- A mean between whole numbers stays between them. -/
theorem rounded_between {places k : Nat} {q : ℚ} (bounds : |q| ≤ k) : |roundDp places q| ≤ k := by
  have high := mem_multiples_natCast places k
  exact abs_le.mpr
    ((roundDp_faithful places q).between (mem_multiples_neg high) high (abs_le.mp bounds))

theorem rounded_nonneg {places : Nat} {q : ℚ} (nonneg : 0 ≤ q) : 0 ≤ roundDp places q := by
  have zero := mem_multiples_natCast places 0
  rw [Nat.cast_zero] at zero
  exact (roundDp_faithful places q).least 0 zero nonneg

/-- What is rounded, and not to zero, is one unit in the last place at least. -/
theorem rounded_large {places : Nat} {q : ℚ} (nonneg : 0 ≤ q) (nonzero : roundDp places q ≠ 0) :
    1 / 10 ^ places ≤ roundDp places q := by
  have unit : (0 : ℚ) < 10 ^ places := by positivity
  have above : 0 ≤ roundDp places q := rounded_nonneg nonneg
  obtain ⟨k, digits⟩ := roundDp_mem places q
  rw [← digits] at above nonzero ⊢
  dsimp only at above nonzero ⊢
  have positive : (0 : ℚ) < k := by
    have numerator : (0 : ℚ) ≤ k := by
      rwa [le_div_iff₀ unit, zero_mul] at above
    refine numerator.lt_of_ne ?_
    rintro zero
    exact nonzero (by rw [← zero, zero_div])
  have one : (1 : ℚ) ≤ k := by
    have whole : (0 : Int) < k := by exact_mod_cast positive
    exact_mod_cast whole
  exact div_le_div_of_nonneg_right one unit.le

end Means

section Samples

/-- Any number of parts of this size is a decimal. -/
structure Grain (size : ℚ) : Prop where
  nonneg : 0 ≤ size
  multiple : ∀ k : Nat, k ≤ ceiling → k * size ∈ representable

theorem grain_least (l : Limits n) : Grain l.least where
  nonneg := l.least_pos.le
  multiple k small := by
    rw [Limits.least, mul_one_div]
    exact mem_fraction small l.few_digits

theorem grain_zero : Grain 0 where
  nonneg := le_rfl
  multiple k _ := by
    rw [mul_zero]
    exact mem_zero

variable {size : ℚ} {s t : Nat} {x y : ℚ}

/-- The sum of so many numbers between a grain and the most price. -/
structure Mids (l : Limits n) (size : ℚ) (samples : Nat) (sum : ℚ) : Prop where
  least : samples * size ≤ sum
  most : sum ≤ samples * l.most

theorem mids_zero : Mids l size 0 0 := by
  constructor <;> simp

theorem mids_one (low : size ≤ x) (high : x ≤ l.most) : Mids l size 1 x :=
  ⟨by simpa using low, by simpa using high⟩

/-- There is room for the samples of all buckets, in basis points. -/
theorem Limits.weighted (l : Limits n) (few : s ≤ n * l.samples) :
    10000 * (s * l.most) ≤ ceiling :=
  (Nat.mul_le_mul_left _ (Nat.mul_le_mul_right _ few)).trans l.sampled

theorem Limits.summed (l : Limits n) (few : s ≤ n * l.samples) : s * l.most ≤ ceiling := by
  have weighted := l.weighted few
  omega

theorem Limits.counted (l : Limits n) (few : s ≤ n * l.samples) : s ≤ ceiling :=
  (Nat.le_mul_of_pos_right s l.some_price).trans (l.summed few)

theorem Mids.add (r : Rounding) (grain : Grain size) (first : Mids l size s x)
    (second : Mids l size t y) (room : s + t ≤ n * l.samples) :
    Fits (x + y) ∧ Mids l size (s + t) (r.add x y) := by
  have low := grain.multiple (s + t) (l.counted room)
  have high := mem_natCast (l.summed room)
  have sum : (s + t : Nat) * size ≤ x + y ∧ x + y ≤ ((s + t) * l.most : Nat) := by
    push_cast
    rw [add_mul, add_mul]
    exact ⟨add_le_add first.least second.least, add_le_add first.most second.most⟩
  obtain ⟨fits, least, most⟩ := fits_between (r.add_faithful x y) low high sum
  rw [Nat.cast_mul] at most
  exact ⟨fits, least, most⟩

/-- The mean of such a sum is between the grain and the most price. -/
theorem Mids.mean (r : Rounding) (grain : Grain size) (mids : Mids l size s x)
    (some_sample : s ≠ 0) :
    Fits (x / s) ∧ size ≤ r.div x s ∧ r.div x s ≤ l.most := by
  have count : (0 : ℚ) < s := Nat.cast_pos.mpr (Nat.pos_of_ne_zero some_sample)
  have low := grain.multiple 1 (by norm_num [ceiling])
  have most := l.times_most (show 1 ≤ 10000 by norm_num)
  rw [Nat.cast_one, one_mul] at low
  rw [one_mul] at most
  apply fits_between (r.div_faithful x s) low (mem_natCast most)
  rw [le_div_iff₀ count, div_le_iff₀ count, mul_comm, mul_comm (l.most : ℚ)]
  exact ⟨mids.least, mids.most⟩

/-- And so is the rounded mean, but for the grain. -/
theorem Mids.rounded (r : Rounding) (grain : Grain size) (mids : Mids l size s x)
    (some_sample : s ≠ 0) : 0 ≤ roundDp midScale (r.div x s) ∧
      roundDp midScale (r.div x s) ≤ l.most := by
  obtain ⟨-, low, high⟩ := mids.mean r grain some_sample
  have nonneg := grain.nonneg.trans low
  have small : |roundDp midScale (r.div x s)| ≤ l.most :=
    rounded_between (abs_le.mpr ⟨by linarith, high⟩)
  exact ⟨rounded_nonneg nonneg, (abs_le.mp small).2⟩

/-- The spreads of so many samples, whichever way they are crossed. -/
theorem spreads_fit (r : Rounding) (first : |x| ≤ s * l.most) (second : |y| ≤ t * l.most)
    (room : s + t ≤ n * l.samples) :
    Fits (x + y) ∧ |r.add x y| ≤ (s + t : Nat) * l.most := by
  have sum : |x + y| ≤ ((s + t) * l.most : Nat) := by
    push_cast
    rw [add_mul]
    exact (abs_add_le x y).trans (add_le_add first second)
  have bound := fits_within (r.add_faithful x y) (l.summed room) sum
  rwa [Nat.cast_mul] at bound

/-- The range of some prices in basis points of the rounded mean. -/
theorem range_fits (r : Rounding) (grain : Grain size) (mids : Mids l size s x)
    (some_sample : s ≠ 0) {high low : Option ℚ} (top : ∀ p, high = some p → l.Priced p)
    (bottom : ∀ p, low = some p → l.Priced p) :
    ∀ q ∈ rangeFigures r high low (roundDp midScale (r.div x s)), Fits q := by
  unfold rangeFigures
  split
  · rename_i high low
    split
    · exact List.forall_mem_nil _
    · rename_i some_mean
      obtain ⟨apart, range⟩ := difference_fits r (top high rfl) (bottom low rfl)
      have large := rounded_large (grain.nonneg.trans (mids.mean r grain some_sample).2.1) some_mean
      have enough : (10000 * l.most : ℚ) ≤
          (10000 * l.most * 10 ^ midScale : Nat) * (1 / 10 ^ midScale) := by
        push_cast
        rw [mul_one_div, mul_div_cancel_right₀ _ (by positivity)]
      rw [List.forall_mem_cons]
      exact ⟨apart, bps_fits range (l.times_most le_rfl) (by positivity) large enough l.mean⟩
  · exact List.forall_mem_nil _

/-- The spreads in basis points of the sum of the prices. -/
theorem spread_bps_fits (few : s ≤ n * l.samples) (mids : Mids l l.least s x)
    (small : |y| ≤ s * l.most) (some_price : x ≠ 0) : ∀ q ∈ bpsFigures r y x, Fits q := by
  have some_sample : s ≠ 0 := by
    rintro rfl
    have zero := mids.most
    have least := mids.least
    rw [Nat.cast_zero, zero_mul] at zero least
    exact some_price (le_antisymm zero least)
  have count : (0 : ℚ) < s := Nat.cast_pos.mpr (Nat.pos_of_ne_zero some_sample)
  have enough : (10000 * (s * l.most : Nat) : ℚ) ≤
      (10000 * l.most * 10 ^ l.digits : Nat) * (s * l.least) := by
    have places : (10 : ℚ) ^ l.digits * l.least = 1 := by
      rw [Limits.least, mul_one_div, div_self (by positivity)]
    push_cast
    calc (10000 * (s * l.most) : ℚ) = 10000 * l.most * s * 1 := by ring
      _ = 10000 * l.most * s * (10 ^ l.digits * l.least) := by rw [places]
      _ ≤ 10000 * l.most * 10 ^ l.digits * (s * l.least) := le_of_eq (by ring)
  rw [← Nat.cast_mul] at small
  exact bps_fits small (l.weighted few) (mul_pos count l.least_pos) mids.least enough l.ratio

end Samples

section Prints

variable {paid k j : Nat} {x y p q : ℚ}

/-- Sums over the prints of so many buckets, each of them paid so much at most. -/
structure Traded (l : Limits n) (paid k : Nat) (sumQty sumPriceQty : ℚ) : Prop where
  lot : sumQty = 0 ∨ l.lot ≤ sumQty
  volume : sumQty ≤ k * l.volume
  turnover : |sumPriceQty| ≤ k * paid

theorem traded_zero : Traded l paid k 0 0 where
  lot := .inl rfl
  volume := by positivity
  turnover := by
    rw [abs_zero]
    positivity

theorem Traded.nonneg (traded : Traded l paid k x p) : 0 ≤ x :=
  traded.lot.elim ge_of_eq l.lot_pos.le.trans

theorem Traded.mono (traded : Traded l paid k x p) (le : k ≤ j) : Traded l paid j x p where
  lot := traded.lot
  volume := traded.volume.trans (by gcongr)
  turnover := traded.turnover.trans (by gcongr)

/-- There is room for the prints of all buckets. -/
theorem Limits.printed (l : Limits n) (room : k ≤ n) :
    k * (l.turnover + l.volume) * 10 ^ l.places ≤ ceiling :=
  (Nat.mul_le_mul_right _ (Nat.mul_le_mul_right _ room)).trans l.traded

theorem Limits.moved (l : Limits n) (room : k ≤ n) (share : paid ≤ l.turnover + l.volume) :
    k * paid ≤ ceiling := by
  have printed := l.printed room
  have scale : 1 ≤ 10 ^ l.places := Nat.one_le_pow _ _ (by norm_num)
  calc k * paid ≤ k * (l.turnover + l.volume) := Nat.mul_le_mul_left _ share
    _ ≤ k * (l.turnover + l.volume) * 10 ^ l.places := Nat.le_mul_of_pos_right _ scale
    _ ≤ ceiling := printed

/-- A sum of quantities is none or a lot at least. -/
theorem lots_fit (r : Rounding) (first : x = 0 ∨ l.lot ≤ x) (second : y = 0 ∨ l.lot ≤ y)
    {c : Nat} (small : c ≤ ceiling) (bound : x + y ≤ c) :
    Fits (x + y) ∧ (r.add x y = 0 ∨ l.lot ≤ r.add x y) ∧ r.add x y ≤ c := by
  have positive := l.lot_pos
  have lot := mem_fraction (k := 1) (by norm_num [ceiling]) l.few_places
  have unit : ((1 : Nat) : ℚ) / 10 ^ l.places = l.lot := by rw [Limits.lot, Nat.cast_one]
  rw [unit] at lot
  have some_lot : l.lot ≤ x + y → Fits (x + y) ∧
      (r.add x y = 0 ∨ l.lot ≤ r.add x y) ∧ r.add x y ≤ c := by
    intro large
    obtain ⟨fits, low, high⟩ := fits_between (r.add_faithful x y) lot (mem_natCast small)
      ⟨large, bound⟩
    exact ⟨fits, .inr low, high⟩
  rcases first with rfl | large
  · rcases second with rfl | large
    · have zero : (0 : ℚ) ≤ 0 + 0 ∧ (0 : ℚ) + 0 ≤ 0 := by norm_num
      obtain ⟨fits, low, high⟩ := fits_between (r.add_faithful 0 0) mem_zero mem_zero zero
      exact ⟨fits, .inl (le_antisymm high low), high.trans (Nat.cast_nonneg c)⟩
    · exact some_lot (by linarith)
  · rcases second with rfl | more
    · exact some_lot (by linarith)
    · exact some_lot (by linarith)

theorem Traded.add (r : Rounding) (share : paid ≤ l.turnover + l.volume)
    (first : Traded l paid k x p) (second : Traded l paid j y q) (room : k + j ≤ n) :
    Fits (x + y) ∧ Fits (p + q) ∧ Traded l paid (k + j) (r.add x y) (r.add p q) := by
  have volume : x + y ≤ ((k + j) * l.volume : Nat) := by
    push_cast
    rw [add_mul]
    exact add_le_add first.volume second.volume
  have turnover : |p + q| ≤ ((k + j) * paid : Nat) := by
    push_cast
    rw [add_mul]
    exact (abs_add_le p q).trans (add_le_add first.turnover second.turnover)
  obtain ⟨fits, lot, bought⟩ := lots_fit r first.lot second.lot
    (l.moved room (Nat.le_add_left _ _)) volume
  obtain ⟨sum, spent⟩ := fits_within (r.add_faithful p q) (l.moved room share) turnover
  rw [Nat.cast_mul] at bought spent
  exact ⟨fits, sum, lot, bought, spent⟩

/-- The mean price of the prints, and what it is worth once it is rounded and weighed again. -/
theorem Traded.vwap (r : Rounding) (share : paid ≤ l.turnover + l.volume)
    (traded : Traded l paid k x p) (some_qty : x ≠ 0) (room : k ≤ n) :
    Fits (p / x) ∧ |roundDp midScale (r.div p x) * x| ≤ k * (paid + l.volume : Nat) := by
  have lot := traded.lot.resolve_left some_qty
  have positive : 0 < x := l.lot_pos.trans_le lot
  have printed := l.printed room
  have scale : (10 : ℚ) ^ l.places * l.lot = 1 := by
    rw [Limits.lot, mul_one_div, div_self (by positivity)]
  have quotient : |p / x| ≤ (k * paid * 10 ^ l.places : Nat) := by
    rw [abs_div, abs_of_pos positive, div_le_iff₀ positive]
    calc |p| ≤ k * paid := traded.turnover
      _ = k * paid * (10 ^ l.places * l.lot) := by rw [scale, mul_one]
      _ ≤ k * paid * (10 ^ l.places * x) := by gcongr
      _ = (k * paid * 10 ^ l.places : Nat) * x := by push_cast; ring
  have whole : k * paid * 10 ^ l.places ≤ ceiling :=
    (Nat.mul_le_mul_right _ (Nat.mul_le_mul_left _ share)).trans printed
  obtain ⟨fits, bound⟩ := fits_ceil (r.div_faithful p x)
    ((Nat.ceil_le.mpr quotient).trans whole)
  refine ⟨fits, ?_⟩
  have next : (⌈|p / x|⌉₊ : ℚ) ≤ |p / x| + 1 := (Nat.ceil_lt_add_one (abs_nonneg _)).le
  have rounded : |roundDp midScale (r.div p x)| ≤ |p / x| + 1 := (rounded_between bound).trans next
  calc |roundDp midScale (r.div p x) * x| = |roundDp midScale (r.div p x)| * x := by
        rw [abs_mul, abs_of_pos positive]
    _ ≤ (|p / x| + 1) * x := mul_le_mul_of_nonneg_right rounded positive.le
    _ = |p| + x := by
        rw [add_mul, one_mul, abs_div, abs_of_pos positive, div_mul_cancel₀ _ positive.ne']
    _ ≤ k * paid + k * l.volume := add_le_add traded.turnover traded.volume
    _ = k * (paid + l.volume : Nat) := by push_cast; ring

end Prints

end FigureBounds
