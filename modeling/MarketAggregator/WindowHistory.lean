import MarketAggregator.GuardedRuns
import MarketAggregator.WindowBuckets
import Mathlib.Algebra.BigOperators.Group.List.Basic
import Mathlib.Algebra.Order.BigOperators.Group.List
import Mathlib.Data.Nat.Count

/-!
# A window reading against the whole history

A history is every call so far. A window of it is what was observed and printed in its
buckets, and the time during which the last observed state was not live. A ring that
keeps only the last buckets, charges time lazily and skips what it missed reads exactly
that, for calls in the order of time.
-/

namespace WindowHistory

open Clocks Decimals GuardedRuns MarketEvents OrderBook WindowBuckets

inductive Call where
  | observe (top : TopOfBook) (now : IngestTime)
  | observeTrade (price qty : Decimal) (now : IngestTime)
  | read (now : IngestTime)

def Call.time : Call → IngestTime
  | .observe _ now => now
  | .observeTrade _ _ now => now
  | .read now => now

def step (s : RollingWindows) : Call → RollingWindows
  | .observe top now => s.observe top now
  | .observeTrade price qty now => s.observeTrade price qty now
  | .read now => (s.read now).2

structure Sample where
  mid : ℚ
  spread : ℚ
  integrity : Integrity

structure Print where
  price : ℚ
  qty : ℚ

/-- What a trusted two-sided book is sampled as. -/
def sampled (top : TopOfBook) : Option Sample :=
  match top.state, top.bid, top.ask with
  | .live integrity _ _, some bid, some ask =>
    let bid := valueOf bid.price.decimal
    let ask := valueOf ask.price.decimal
    some ⟨(bid + ask) / 2, ask - bid, integrity⟩
  | _, _, _ => none

theorem sampled_live {top : TopOfBook} {x : Sample} (h : sampled top = some x) :
    top.state.isLive = true := by
  rcases top with ⟨bid, ask, state, age⟩
  cases state with
  | live integrity since verified => rfl
  | uninitialized => cases h
  | desynced since reason => cases h

/-- Observing a trusted two-sided book writes its sample. -/
theorem observe_sampled {s : RollingWindows} {top : TopOfBook} {now : IngestTime} {x : Sample}
    (h : sampled top = some x) :
    s.observe top now = RollingWindows.slotMut { s.charge now with trusted := true }
      ((s.charge now).indexAt now) (fun b => b.record x.mid x.spread x.integrity) := by
  rcases top with ⟨bid, ask, state, age⟩
  cases state with
  | uninitialized => cases h
  | desynced since reason => cases h
  | live integrity since verified =>
    cases bid with
    | none => cases h
    | some bid =>
      cases ask with
      | none => cases h
      | some ask =>
        obtain rfl := Option.some.inj h
        rfl

/-- Observing any other book changes the trust state alone. -/
theorem observe_unsampled {s : RollingWindows} {top : TopOfBook} {now : IngestTime}
    (h : sampled top = none) :
    s.observe top now = { s.charge now with trusted := top.state.isLive } := by
  rcases top with ⟨bid, ask, state, age⟩
  cases state with
  | uninitialized => rfl
  | desynced since reason => rfl
  | live integrity since verified =>
    cases bid with
    | none => rfl
    | some bid =>
      cases ask with
      | none => rfl
      | some ask => cases h

namespace Call

def sample : Call → Option Sample
  | .observe top _ => sampled top
  | _ => none

def print : Call → Option Print
  | .observeTrade price qty _ => some ⟨valueOf price, valueOf qty⟩
  | _ => none

def liveness : Call → Option Bool
  | .observe top _ => some top.state.isLive
  | _ => none

end Call

section Reference

variable (resolution : Nat) (origin : IngestTime) (calls : List Call)

def offset (c : Call) : Nat := c.time.since origin

def bucketOf (c : Call) : Nat := offset origin c / resolution

/-- The calls stamped in the buckets from `low` up to and without `high`. -/
def stamped (low high : Nat) : List Call :=
  calls.filter (fun c => low ≤ bucketOf resolution origin c ∧ bucketOf resolution origin c < high)

def samplesIn (low high : Nat) : List Sample :=
  (stamped resolution origin calls low high).filterMap Call.sample

def printsIn (low high : Nat) : List Print :=
  (stamped resolution origin calls low high).filterMap Call.print

/-- Whether the state observed last, up to an instant after the origin, was live. -/
def liveAt (instant : Nat) : Bool :=
  ((calls.filter (fun c => offset origin c ≤ instant)).filterMap Call.liveness).getLast?.getD false

/-- How many nanoseconds of a bucket were not live. -/
def downtime (bucket : Nat) : Nat :=
  Nat.count (fun j => liveAt origin calls (bucket * resolution + j) = false) resolution

/-- The figures of what was sampled and printed. -/
def readingOf (spanMs trustedMs : Nat) (samples : List Sample) (prints : List Print) :
    WindowReading :=
  let mids := samples.map Sample.mid
  let volume := (prints.map Print.qty).sum
  let mean := roundDp midScale (mids.sum / mids.length)
  { spanMs := spanMs
    trustedMs := trustedMs
    samples := samples.length
    integrityFloor := (samples.map Sample.integrity).min?
    first := mids.head?
    last := mids.getLast?
    high := mids.max?
    low := mids.min?
    mean := if mids = [] then none else some mean
    changeBps := mids.head?.bind (fun first => mids.getLast?.bind (fun last =>
      if first = 0 then none else some (bps (last - first) first)))
    rangeBps := mids.max?.bind (fun high => mids.min?.bind (fun low =>
      if mean = 0 then none else some (bps (high - low) mean)))
    meanSpreadBps := if mids = [] ∨ mids.sum = 0 then none
      else some (bps (samples.map Sample.spread).sum mids.sum)
    trades := prints.length
    volume := if prints = [] then none else some volume
    vwap := if prints = [] ∨ volume = 0 then none
      else some (roundDp midScale ((prints.map (fun p => p.price * p.qty)).sum / volume)) }

/-- How much of the buckets from `low` up to and without `high` was live, in milliseconds. -/
def trustedIn (low high : Nat) : Nat :=
  ((List.range' low (high - low)).map
    (fun bucket => millis (resolution - downtime resolution origin calls bucket))).sum

/-- The reading of one span at a time, from the history alone. -/
def reference (span : Nat) (now : IngestTime) : WindowReading :=
  let current := now.since origin / resolution
  let k := bucketsFor span resolution
  let low := current - k
  readingOf (millis (min (resolution * k) durationMax))
    (trustedIn resolution origin calls low current)
    (samplesIn resolution origin calls low current) (printsIn resolution origin calls low current)

end Reference

section Summaries

/-- A bucket that holds these samples, these prints and this much untrusted time. -/
def bucketWith (index : Nat) (samples : List Sample) (prints : List Print) (untrusted : Nat) :
    Bucket where
  index := some index
  samples := samples.length
  sumMid := (samples.map Sample.mid).sum
  sumSpread := (samples.map Sample.spread).sum
  first := (samples.map Sample.mid).head?
  last := (samples.map Sample.mid).getLast?
  high := (samples.map Sample.mid).max?
  low := (samples.map Sample.mid).min?
  integrity := (samples.map Sample.integrity).min?
  trades := prints.length
  sumQty := (prints.map Print.qty).sum
  sumPriceQty := (prints.map (fun p => p.price * p.qty)).sum
  untrusted := untrusted

def totalsOf (trustedMs : Nat) (samples : List Sample) (prints : List Print) :
    RollingWindows.Totals where
  trustedMs := trustedMs
  samples := samples.length
  integrityFloor := (samples.map Sample.integrity).min?
  first := (samples.map Sample.mid).head?
  last := (samples.map Sample.mid).getLast?
  high := (samples.map Sample.mid).max?
  low := (samples.map Sample.mid).min?
  trades := prints.length
  sumMid := (samples.map Sample.mid).sum
  sumSpread := (samples.map Sample.spread).sum
  sumQty := (prints.map Print.qty).sum
  sumPriceQty := (prints.map (fun p => p.price * p.qty)).sum

theorem max?_append {T : Type} [LinearOrder T] (xs ys : List T) :
    (xs ++ ys).max? = maxOpt xs.max? ys.max? := by
  induction xs with
  | nil => cases h : ys.max? <;> simp [maxOpt, h]
  | cons x xs ih =>
    rw [List.cons_append, List.max?_cons, List.max?_cons, ih]
    cases xs.max? <;> cases ys.max? <;> simp [maxOpt, max_assoc]

theorem min?_append {T : Type} [LinearOrder T] (xs ys : List T) :
    (xs ++ ys).min? = minOpt xs.min? ys.min? := by
  induction xs with
  | nil => cases h : ys.min? <;> simp [minOpt, h]
  | cons x xs ih =>
    rw [List.cons_append, List.min?_cons, List.min?_cons, ih]
    cases xs.min? <;> cases ys.min? <;> simp [minOpt, min_assoc]

variable {index untrusted : Nat} {samples : List Sample} {prints : List Print}

theorem record_bucketWith (x : Sample) :
    (bucketWith index samples prints untrusted).record x.mid x.spread x.integrity =
      bucketWith index (samples ++ [x]) prints untrusted := by
  simp [bucketWith, Bucket.record, max?_append, min?_append]

theorem recordTrade_bucketWith (p : Print) :
    (bucketWith index samples prints untrusted).recordTrade p.price p.qty =
      bucketWith index samples (prints ++ [p]) untrusted := by
  simp [bucketWith, Bucket.recordTrade]

theorem charged_bucketWith (elapsed : Nat) :
    (bucketWith index samples prints untrusted).charged elapsed =
      bucketWith index samples prints (untrusted + elapsed) := rfl

theorem add_bucketWith (resolution trustedMs : Nat) (before : List Sample) (sold : List Print) :
    (totalsOf trustedMs before sold).add resolution (bucketWith index samples prints untrusted) =
      totalsOf (trustedMs + millis (resolution - untrusted)) (before ++ samples)
        (sold ++ prints) := by
  cases samples with
  | nil => simp [totalsOf, bucketWith, RollingWindows.Totals.add]
  | cons x samples =>
    simp [totalsOf, bucketWith, RollingWindows.Totals.add, max?_append, min?_append]

end Summaries

section Histories

variable {resolution : Nat} {origin : IngestTime} {calls : List Call} {c : Call}
  {low middle high i : Nat}

/-- In a list that is sorted by a key, a range of keys is two ranges one after the other. -/
theorem filter_split {T : Type} {key : T → Nat} {l : List T}
    (sorted : l.Pairwise (fun a b => key a ≤ key b)) (lm : low ≤ middle) (mh : middle ≤ high) :
    l.filter (fun a => low ≤ key a ∧ key a < high) =
      l.filter (fun a => low ≤ key a ∧ key a < middle) ++
        l.filter (fun a => middle ≤ key a ∧ key a < high) := by
  induction l with
  | nil => rfl
  | cons a l ih =>
    obtain ⟨first, rest⟩ := List.pairwise_cons.mp sorted
    have split := ih rest
    by_cases early : key a < middle
    · have late : ¬ middle ≤ key a := Nat.not_le.mpr early
      have inside : key a < high := Nat.lt_of_lt_of_le early mh
      simp only [List.filter_cons, split, early, late, inside, and_true]
      by_cases above : low ≤ key a <;> simp [above]
    · have late : middle ≤ key a := Nat.not_lt.mp early
      have above : low ≤ key a := Nat.le_trans lm late
      have empty : l.filter (fun b => low ≤ key b ∧ key b < middle) = [] := by
        refine List.filter_eq_nil_iff.mpr fun b mem => ?_
        have later := first b mem
        simp only [decide_eq_true_eq]
        omega
      rw [empty, List.nil_append] at split
      simp only [List.filter_cons, split, empty, early, late, above, true_and, and_false]
      simp

theorem stamped_append : stamped resolution origin (calls ++ [c]) low high =
    stamped resolution origin calls low high ++
      if low ≤ bucketOf resolution origin c ∧ bucketOf resolution origin c < high then [c]
      else [] := by
  rw [stamped, List.filter_append, stamped]
  congr 1
  split <;> rename_i inside <;> simp [inside]

/-- Nothing is stamped in a bucket that no call has reached. -/
theorem stamped_beyond {last : Nat} (past : ∀ c ∈ calls, bucketOf resolution origin c ≤ last)
    (beyond : last < low) : stamped resolution origin calls low high = [] := by
  refine List.filter_eq_nil_iff.mpr fun c mem => ?_
  have bucket := past c mem
  simp only [decide_eq_true_eq]
  omega

theorem liveAt_append {instant : Nat} : liveAt origin (calls ++ [c]) instant =
    if offset origin c ≤ instant then c.liveness.getD (liveAt origin calls instant)
    else liveAt origin calls instant := by
  rw [liveAt, List.filter_append, List.filterMap_append]
  by_cases reached : offset origin c ≤ instant
  · rw [if_pos reached]
    cases live : c.liveness with
    | none => simp [reached, live, liveAt]
    | some value => simp [reached, live]
  · simp [reached, liveAt]

/-- After every call nothing changes any more. -/
theorem liveAt_settled {instant other : Nat} (past : ∀ c ∈ calls, offset origin c ≤ instant)
    (past' : ∀ c ∈ calls, offset origin c ≤ other) :
    liveAt origin calls instant = liveAt origin calls other := by
  rw [liveAt, liveAt]
  have all : ∀ {t}, (∀ c ∈ calls, offset origin c ≤ t) →
      calls.filter (fun c => offset origin c ≤ t) = calls := fun reached =>
    List.filter_eq_self.mpr fun c mem => decide_eq_true (reached c mem)
  rw [all past, all past']

/-- The untrusted time of a bucket up to an instant. -/
def downSoFar (resolution : Nat) (origin : IngestTime) (calls : List Call) (now i : Nat) : Nat :=
  Nat.count (fun j => liveAt origin calls (i * resolution + j) = false)
    (min resolution (now - i * resolution))

theorem downSoFar_complete {now : Nat} (passed : (i + 1) * resolution ≤ now) :
    downSoFar resolution origin calls now i = downtime resolution origin calls i := by
  rw [Nat.succ_mul] at passed
  rw [downSoFar, downtime, Nat.min_eq_left (by omega)]

theorem downSoFar_unreached {now : Nat} (before : now ≤ i * resolution) :
    downSoFar resolution origin calls now i = 0 := by
  rw [downSoFar, Nat.sub_eq_zero_of_le before, Nat.min_zero, Nat.count_zero]

/-- Between two instants of one bucket, after every call, the last state decides. -/
theorem downSoFar_slice {now next : Nat} (past : ∀ c ∈ calls, offset origin c ≤ now)
    (begun : i * resolution ≤ now) (later : now ≤ next) (within : next ≤ (i + 1) * resolution) :
    downSoFar resolution origin calls next i = downSoFar resolution origin calls now i +
      if liveAt origin calls now = true then 0 else next - now := by
  rw [Nat.succ_mul] at within
  have split : next - i * resolution = (now - i * resolution) + (next - now) := by omega
  rw [downSoFar, Nat.min_eq_right (by omega), split, Nat.count_add, downSoFar,
    Nat.min_eq_right (by omega)]
  congr 1
  have same : ∀ k, liveAt origin calls (i * resolution + (now - i * resolution + k)) =
      liveAt origin calls now := by
    intro k
    refine liveAt_settled (fun c mem => ?_) past
    have reached := past c mem
    omega
  simp only [same]
  cases liveAt origin calls now with
  | true => simp
  | false => simp

/-- A later call does not change what was charged before it. -/
theorem downSoFar_append {now : Nat} (late : now ≤ offset origin c) :
    downSoFar resolution origin (calls ++ [c]) now i =
      downSoFar resolution origin calls now i := by
  rw [downSoFar, downSoFar, Nat.count_eq_card_filter_range, Nat.count_eq_card_filter_range]
  congr 1
  refine Finset.filter_congr fun j mem => ?_
  have below := Finset.mem_range.mp mem
  rw [liveAt_append, if_neg (by omega)]

end Histories

section Accounting

variable {spec : WindowSpec} {origin : IngestTime} {calls : List Call} {low now next i : Nat}
  {s : RollingWindows}

theorem resolution_pos (spec : WindowSpec) : 0 < spec.resolution :=
  Nat.lt_of_lt_of_le (by decide) spec.clamped

/-- What the history says of a bucket, up to an instant. -/
def bucketSoFar (resolution : Nat) (origin : IngestTime) (calls : List Call) (now i : Nat) :
    Bucket :=
  bucketWith i (samplesIn resolution origin calls i (i + 1))
    (printsIn resolution origin calls i (i + 1)) (downSoFar resolution origin calls now i)

/-- The ring agrees with the history up to an instant, in all buckets from `low` on. A bucket
that was never written has nothing to say. -/
structure Accounts (spec : WindowSpec) (origin : IngestTime) (calls : List Call) (low now : Nat)
    (s : RollingWindows) : Prop where
  ownSpec : s.spec = spec
  ownOrigin : s.origin = origin
  some_place : 0 < s.ring
  lowest : low ≤ now / spec.resolution
  near : now / spec.resolution < low + s.ring
  past : ∀ c ∈ calls, offset origin c ≤ now
  trusted : s.trusted = liveAt origin calls now
  numbered : ∀ i, (s.slot i).isSome = true → i ≤ now / spec.resolution
  kept : ∀ i, low ≤ i → i ≤ now / spec.resolution →
    (s.slot i).getD (Bucket.blank (some i)) = bucketSoFar spec.resolution origin calls now i
  touched : ∀ i, low ≤ i → i * spec.resolution < now → (s.slot i).isSome = true

theorem bucketSoFar_unreached (past : ∀ c ∈ calls, offset origin c ≤ now)
    (beyond : now / spec.resolution < i) (before : next ≤ i * spec.resolution) :
    bucketSoFar spec.resolution origin calls next i = Bucket.blank (some i) := by
  have empty : stamped spec.resolution origin calls i (i + 1) = [] :=
    stamped_beyond (fun c mem => Nat.div_le_div_right (past c mem)) beyond
  rw [bucketSoFar, samplesIn, printsIn, empty, downSoFar_unreached before]
  rfl

/-- One slice of charging ends at the bucket's end or at the time that is charged to. -/
def sliceEnd (spec : WindowSpec) (now next : Nat) : Nat :=
  min ((now / spec.resolution + 1) * spec.resolution) next

variable (spec) in
theorem now_lt_sliceEnd (later : now < next) : now < sliceEnd spec now next := by
  have inside := Nat.lt_div_mul_add (a := now) (resolution_pos spec)
  rw [sliceEnd, Nat.succ_mul]
  omega

/-- The write that charges one slice. -/
def slice (s : RollingWindows) (i elapsed : Nat) : RollingWindows :=
  s.slotMut i (fun b => if s.trusted then b else b.charged elapsed)

theorem accounts_slice (h : Accounts spec origin calls low now s) (later : now < next)
    (reach : next / spec.resolution < low + s.ring) :
    Accounts spec origin calls low (sliceEnd spec now next)
      (slice s (now / spec.resolution) (sliceEnd spec now next - now)) := by
  have positive := resolution_pos spec
  have advance := now_lt_sliceEnd spec later
  generalize current : now / spec.resolution = e at *
  generalize ends : sliceEnd spec now next = d at *
  have start : e * spec.resolution ≤ now := current ▸ Nat.div_mul_le_self now spec.resolution
  have within : d ≤ (e + 1) * spec.resolution := by
    rw [← ends, sliceEnd, current]
    exact Nat.min_le_left _ _
  have bounded : d ≤ next := by
    rw [← ends, sliceEnd]
    exact Nat.min_le_right _ _
  have reached : e ≤ d / spec.resolution := (Nat.le_div_iff_mul_le positive).mpr (by omega)
  have latest : d / spec.resolution ≤ e + 1 := Nat.div_le_of_le_mul (Nat.mul_comm _ _ ▸ within)
  have close : d / spec.resolution < low + s.ring :=
    Nat.lt_of_le_of_lt (Nat.div_le_div_right bounded) reach
  have settled : liveAt origin calls d = liveAt origin calls now :=
    liveAt_settled (fun c mem => Nat.le_trans (h.past c mem) (Nat.le_of_lt advance)) h.past
  have keeps : KeepsIndex (fun b => if s.trusted then b else b.charged (d - now)) :=
    charged_keepsIndex
  have own := slot_slotMut (i := e) h.some_place keeps
  have apart : ∀ i, low ≤ i → i < low + s.ring → i ≠ e → s.place i ≠ s.place e := by
    intro i above below other same
    have lowest := h.lowest
    have near := h.near
    rw [current] at lowest near
    exact other (place_injective h.some_place same (by omega) (by omega))
  refine ⟨h.ownSpec, h.ownOrigin, by simpa [slice] using h.some_place,
    Nat.le_trans (current ▸ h.lowest) reached, by simpa [slice] using close,
    fun c mem => Nat.le_trans (h.past c mem) (Nat.le_of_lt advance),
    h.trusted.trans settled.symm, ?_, ?_, ?_⟩
  · intro i some_bucket
    by_cases other : i = e
    · exact other ▸ reached
    · by_cases same : s.place i = s.place e
      · rw [slice, slot_slotMut_evicted h.some_place keeps same other] at some_bucket
        cases some_bucket
      · rw [slice, slot_slotMut_other same] at some_bucket
        exact Nat.le_trans (current ▸ h.numbered i some_bucket) reached
  · intro i above below
    by_cases other : i = e
    · subst other
      rw [slice, own, Option.getD_some, h.kept i above (by omega), bucketSoFar, bucketSoFar,
        downSoFar_slice h.past start (Nat.le_of_lt advance) within, ← h.trusted]
      cases s.trusted with
      | true => rfl
      | false => exact charged_bucketWith _
    · rw [slice, slot_slotMut_other (apart i above (by omega) other)]
      by_cases earlier : i < e
      · rw [h.kept i above (by omega), bucketSoFar, bucketSoFar]
        have passed : (i + 1) * spec.resolution ≤ now :=
          Nat.le_trans (Nat.mul_le_mul_right _ earlier) start
        rw [downSoFar_complete passed,
          downSoFar_complete (Nat.le_trans passed (Nat.le_of_lt advance))]
      · have new : s.slot i = none := by
          by_contra present
          have numbered := h.numbered i (Option.isSome_iff_ne_none.mpr present)
          omega
        rw [new, Option.getD_none]
        have next_one : i = e + 1 := by omega
        subst next_one
        exact (bucketSoFar_unreached h.past (by omega) within).symm
  · intro i above begun
    by_cases other : i = e
    · subst other
      rw [slice, own]
      rfl
    · have before : i < e + 1 := by
        by_contra after
        have far := Nat.mul_le_mul_right spec.resolution (Nat.le_of_not_lt after)
        omega
      have earlier : i < e := by omega
      have passed : i * spec.resolution < now := by
        have far := Nat.mul_le_mul_right spec.resolution earlier
        rw [Nat.succ_mul] at far
        omega
      have near := h.near
      rw [slice, slot_slotMut_other (apart i above (by omega) other)]
      exact h.touched i above passed

/-- Raising the lowest bucket forgets what was below it. -/
theorem Accounts.raise (h : Accounts spec origin calls low now s) (higher : Nat)
    (above : low ≤ higher) (below : higher ≤ now / spec.resolution) :
    Accounts spec origin calls higher now s := by
  have near := h.near
  exact ⟨h.ownSpec, h.ownOrigin, h.some_place, below, by omega, h.past, h.trusted, h.numbered,
    fun i passed => h.kept i (Nat.le_trans above passed),
    fun i passed => h.touched i (Nat.le_trans above passed)⟩

/-- A bucket of the last 64 bits of time is numbered and placed without clamping. -/
theorem Accounts.indexOf {mono : Nat} (h : Accounts spec origin calls low now s)
    (small : mono - origin.mono < 2 ^ 64) :
    s.indexOf mono = (mono - origin.mono) / spec.resolution := by
  have positive := resolution_pos spec
  have fits : (mono - origin.mono) / spec.resolution ≤ u64Max :=
    Nat.le_trans (Nat.div_le_self _ _) (Nat.le_pred_of_lt small)
  rw [RollingWindows.indexOf, h.ownOrigin, h.ownSpec, Nat.max_eq_left positive,
    Nat.min_eq_left fits]

theorem Accounts.bucketStart (h : Accounts spec origin calls low now s)
    (small : i * spec.resolution < 2 ^ 64) :
    s.bucketStart (RollingWindows.saturatingSucc i) =
      origin.mono + min ((i + 1) * spec.resolution) u64Max := by
  have coarse : 2 ≤ spec.resolution := Nat.le_trans (by decide) spec.clamped
  have doubled : i * 2 ≤ i * spec.resolution := Nat.mul_le_mul_left i coarse
  have fits : i + 1 ≤ u64Max := by
    have most : u64Max = 2 ^ 64 - 1 := rfl
    omega
  rw [RollingWindows.bucketStart, RollingWindows.saturatingSucc, Nat.min_eq_left fits, h.ownOrigin,
    h.ownSpec]

/-- Charging in slices is exact, and the fuel is enough because every slice takes time. -/
theorem chargeFrom_accounts {last fuel : Nat} (h : Accounts spec origin calls low now s)
    (small : last < 2 ^ 64) (later : now ≤ last) (reach : last / spec.resolution < low + s.ring)
    (enough : last - now ≤ fuel) :
    Accounts spec origin calls low last
      (RollingWindows.chargeFrom (origin.mono + last) fuel (origin.mono + now) s) := by
  induction fuel generalizing now s with
  | zero =>
    have equal : now = last := by omega
    exact equal ▸ h
  | succ fuel ih =>
    by_cases done : now = last
    · rw [RollingWindows.chargeFrom, if_neg (by omega)]
      exact done ▸ h
    · have before : now < last := by omega
      have numbered : s.indexOf (origin.mono + now) = now / spec.resolution := by
        rw [h.indexOf (by omega), Nat.add_sub_cancel_left]
      have boundary := h.bucketStart (i := now / spec.resolution)
        (Nat.lt_of_le_of_lt (Nat.div_mul_le_self _ _) (Nat.lt_trans before small))
      have advance := now_lt_sliceEnd spec before
      have bounded : sliceEnd spec now last ≤ last := Nat.min_le_right _ _
      have most : u64Max = 2 ^ 64 - 1 := rfl
      have ends : (if origin.mono + min ((now / spec.resolution + 1) * spec.resolution) u64Max <
          origin.mono + last then
            origin.mono + min ((now / spec.resolution + 1) * spec.resolution) u64Max
          else origin.mono + last) = origin.mono + sliceEnd spec now last := by
        rw [sliceEnd]
        split <;> omega
      have charged := accounts_slice h before reach
      have next := ih charged bounded (by simpa [slice] using reach) (by omega)
      rw [RollingWindows.chargeFrom, if_pos (by omega)]
      simp only [numbered, boundary, ends]
      rw [if_neg (by omega), Nat.add_sub_add_left]
      exact next

@[simp] theorem chargeFrom_ring {last fuel cursor : Nat} :
    (RollingWindows.chargeFrom last fuel cursor s).ring = s.ring := by
  induction fuel generalizing cursor s with
  | zero => rfl
  | succ fuel ih =>
    rw [RollingWindows.chargeFrom]
    simp only [apply_ite RollingWindows.ring, ih, slotMut_ring, ite_self]

@[simp] theorem charge_ring {time : IngestTime} : (s.charge time).ring = s.ring := by
  rw [RollingWindows.charge]
  split
  · rfl
  · exact chargeFrom_ring

/-- Between calls: every bucket a window can reach is accounted up to the last charge, which was
made by the last call. -/
structure AtRest (spec : WindowSpec) (origin : IngestTime) (calls : List Call) (now : Nat)
    (s : RollingWindows) : Prop where
  accounts : Accounts spec origin calls (now / spec.resolution + 1 - s.ring) now s
  charged : s.chargedTo.mono = origin.mono + now
  small : now < 2 ^ 64
  latest : now = 0 ∨ ∃ c ∈ calls, now = offset origin c

variable (next) in
/-- What a longer gap than the ring skips is in no window of any reading from then on. -/
theorem accounts_skip (h : Accounts spec origin calls low now s)
    (far : now / spec.resolution + s.ring ≤ next / spec.resolution) :
    Accounts spec origin calls (next / spec.resolution - s.ring + 1)
      ((next / spec.resolution - s.ring + 1) * spec.resolution) s := by
  have positive := resolution_pos spec
  have some_place := h.some_place
  generalize jump : next / spec.resolution - s.ring + 1 = e
  have number : e * spec.resolution / spec.resolution = e := Nat.mul_div_cancel _ positive
  have beyond : now / spec.resolution < e := by omega
  have after : now ≤ e * spec.resolution :=
    Nat.le_of_lt ((Nat.div_lt_iff_lt_mul positive).mp beyond)
  have past : ∀ c ∈ calls, offset origin c ≤ e * spec.resolution :=
    fun c mem => Nat.le_trans (h.past c mem) after
  refine ⟨h.ownSpec, h.ownOrigin, some_place, Nat.le_of_eq number.symm, by omega, past,
    h.trusted.trans (liveAt_settled h.past past), ?_, ?_, ?_⟩
  · intro i some_bucket
    have numbered := h.numbered i some_bucket
    omega
  · intro i above below
    have equal : i = e := by omega
    have new : s.slot i = none := by
      by_contra present
      have numbered := h.numbered i (Option.isSome_iff_ne_none.mpr present)
      omega
    rw [new, Option.getD_none, equal]
    exact (bucketSoFar_unreached h.past beyond (Nat.le_refl _)).symm
  · intro i above begun
    have below : i < e := Nat.lt_of_mul_lt_mul_right begun
    omega

theorem Accounts.timed {time : IngestTime} (h : Accounts spec origin calls low now s) :
    Accounts spec origin calls low now { s with chargedTo := time } :=
  ⟨h.ownSpec, h.ownOrigin, h.some_place, h.lowest, h.near, h.past, h.trusted, h.numbered, h.kept,
    h.touched⟩

theorem charge_accounts {last : Nat} {c : Call} (h : AtRest spec origin calls last s)
    (small : offset origin c < 2 ^ 64) (sorted : ∀ d ∈ calls, offset origin d ≤ offset origin c) :
    Accounts spec origin calls
        (offset origin c / spec.resolution + 1 - (s.charge c.time).ring) (offset origin c)
        (s.charge c.time) ∧
      (s.charge c.time).chargedTo.mono = origin.mono + offset origin c := by
  have elapsed : offset origin c = c.time.mono - origin.mono := rfl
  have charged := h.charged
  generalize offset origin c = n at *
  rw [charge_ring, RollingWindows.charge]
  by_cases early : c.time.mono ≤ s.chargedTo.mono
  · rw [if_pos early]
    have reached : last ≤ n := by
      rcases h.latest with zero | ⟨d, mem, equal⟩
      · omega
      · exact equal ▸ sorted d mem
    have equal : last = n := by omega
    exact ⟨equal ▸ h.accounts, equal ▸ charged⟩
  · have reading : c.time.mono = origin.mono + n := by omega
    have later : last ≤ n := by omega
    have now_index : s.indexAt c.time = n / spec.resolution := by
      rw [RollingWindows.indexAt, h.accounts.indexOf (by omega), elapsed.symm]
    have last_index : s.indexAt s.chargedTo = last / spec.resolution := by
      have past := h.small
      rw [RollingWindows.indexAt, charged, h.accounts.indexOf (by omega), Nat.add_sub_cancel_left]
    have some_place := h.accounts.some_place
    rw [if_neg early]
    simp only [now_index, last_index, reading]
    refine ⟨Accounts.timed ?_, trivial⟩
    by_cases far : s.ring ≤ n / spec.resolution - last / spec.resolution
    · have start := accounts_skip n h.accounts (by omega)
      have floor := Nat.div_mul_le_self n spec.resolution
      have inside : (n / spec.resolution - s.ring + 1) * spec.resolution ≤ n :=
        Nat.le_trans (Nat.mul_le_mul_right _ (by omega)) floor
      have boundary := h.accounts.bucketStart (i := n / spec.resolution - s.ring)
        (Nat.lt_of_le_of_lt (Nat.mul_le_mul_right _ (Nat.le_succ _))
          (Nat.lt_of_le_of_lt inside small))
      have unclamped : (n / spec.resolution - s.ring + 1) * spec.resolution ≤ u64Max :=
        Nat.le_trans inside (Nat.le_pred_of_lt small)
      rw [if_pos far, boundary, Nat.min_eq_left unclamped, Nat.add_sub_add_left]
      have lowest : n / spec.resolution + 1 - s.ring = n / spec.resolution - s.ring + 1 := by omega
      rw [lowest]
      exact chargeFrom_accounts start small inside (by omega) (Nat.le_refl _)
    · have ahead := Nat.div_le_div_right (c := spec.resolution) later
      have raised := h.accounts.raise (n / spec.resolution + 1 - s.ring) (by omega)
        (by omega)
      rw [if_neg far, charged, Nat.add_sub_add_left]
      exact chargeFrom_accounts raised small later (by omega) (Nat.le_refl _)

end Accounting

section Recording

variable {spec : WindowSpec} {origin : IngestTime} {calls : List Call} {c : Call} {low now i : Nat}
  {s : RollingWindows} {trust : Bool} {write : Bucket → Bucket}

theorem samplesIn_append {resolution high : Nat} :
    samplesIn resolution origin (calls ++ [c]) low high =
      samplesIn resolution origin calls low high ++
        if low ≤ bucketOf resolution origin c ∧ bucketOf resolution origin c < high then
          c.sample.toList
        else [] := by
  rw [samplesIn, stamped_append, List.filterMap_append, samplesIn]
  split
  · cases sample : c.sample <;> simp [sample]
  · rfl

theorem printsIn_append {resolution high : Nat} :
    printsIn resolution origin (calls ++ [c]) low high =
      printsIn resolution origin calls low high ++
        if low ≤ bucketOf resolution origin c ∧ bucketOf resolution origin c < high then
          c.print.toList
        else [] := by
  rw [printsIn, stamped_append, List.filterMap_append, printsIn]
  split
  · cases print : c.print <;> simp [print]
  · rfl

/-- A call at the end of what is charged adds to the bucket it is stamped in, and to no other. -/
theorem bucketSoFar_append (stamp : offset origin c = now) :
    bucketSoFar spec.resolution origin (calls ++ [c]) now i =
      if i = now / spec.resolution then
        bucketWith i (samplesIn spec.resolution origin calls i (i + 1) ++ c.sample.toList)
          (printsIn spec.resolution origin calls i (i + 1) ++ c.print.toList)
          (downSoFar spec.resolution origin calls now i)
      else bucketSoFar spec.resolution origin calls now i := by
  have number : bucketOf spec.resolution origin c = now / spec.resolution := by
    rw [bucketOf, stamp]
  have unchanged : downSoFar spec.resolution origin (calls ++ [c]) now i =
      downSoFar spec.resolution origin calls now i := downSoFar_append (Nat.le_of_eq stamp.symm)
  rw [bucketSoFar, samplesIn_append, printsIn_append, unchanged, number]
  by_cases own : i = now / spec.resolution
  · rw [if_pos own, if_pos (by omega), if_pos (by omega)]
  · rw [if_neg own, if_neg (by omega), if_neg (by omega), List.append_nil, List.append_nil]
    rfl

theorem liveAt_now (h : Accounts spec origin calls low now s) (stamp : offset origin c = now) :
    c.liveness.getD s.trusted = liveAt origin (calls ++ [c]) now := by
  rw [liveAt_append, if_pos (Nat.le_of_eq stamp), h.trusted]

theorem past_append (h : Accounts spec origin calls low now s) (stamp : offset origin c = now) :
    ∀ d ∈ calls ++ [c], offset origin d ≤ now := by
  intro d mem
  rcases List.mem_append.mp mem with old | new
  · exact h.past d old
  · exact Nat.le_of_eq ((congrArg _ (List.mem_singleton.mp new)).trans stamp)

/-- A call with neither a sample nor a print changes the trust state at most. -/
theorem accounts_silent (h : Accounts spec origin calls low now s) (stamp : offset origin c = now)
    (quiet : c.sample = none) (unsold : c.print = none) (live : c.liveness.getD s.trusted = trust) :
    Accounts spec origin (calls ++ [c]) low now { s with trusted := trust } := by
  refine ⟨h.ownSpec, h.ownOrigin, h.some_place, h.lowest, h.near, past_append h stamp,
    live.symm.trans (liveAt_now h stamp), h.numbered, ?_, h.touched⟩
  intro i above below
  rw [bucketSoFar_append stamp, quiet, unsold]
  simp only [Option.toList_none, List.append_nil]
  exact (h.kept i above below).trans (ite_self _).symm

/-- A call that is recorded in the bucket of its stamp. -/
theorem accounts_write (h : Accounts spec origin calls low now s) (stamp : offset origin c = now)
    (live : c.liveness.getD s.trusted = trust) (keeps : KeepsIndex write)
    (recorded : write (bucketSoFar spec.resolution origin calls now (now / spec.resolution)) =
      bucketSoFar spec.resolution origin (calls ++ [c]) now (now / spec.resolution)) :
    Accounts spec origin (calls ++ [c]) low now
      (RollingWindows.slotMut { s with trusted := trust } (now / spec.resolution) write) := by
  generalize trusting : { s with trusted := trust } = t
  have same : ∀ i, t.slot i = s.slot i := fun i => trusting ▸ rfl
  have ring : t.ring = s.ring := trusting ▸ rfl
  have some_place : 0 < t.ring := ring ▸ h.some_place
  generalize current : now / spec.resolution = e at *
  have own := slot_slotMut (i := e) some_place keeps
  have apart : ∀ i, low ≤ i → i ≤ e → i ≠ e → t.place i ≠ t.place e := by
    intro i above below other equal
    have near := h.near
    exact other (place_injective some_place equal (by omega) (by omega))
  refine ⟨by rw [slotMut_spec, ← trusting, h.ownSpec],
    by rw [slotMut_origin, ← trusting, h.ownOrigin], by rw [slotMut_ring]; exact some_place,
    h.lowest, by rw [slotMut_ring, ring]; exact h.near, past_append h stamp, ?_, ?_, ?_, ?_⟩
  · rw [slotMut_trusted, ← trusting]
    exact live.symm.trans (liveAt_now h stamp)
  · intro i some_bucket
    by_cases other : i = e
    · omega
    · by_cases shared : t.place i = t.place e
      · rw [slot_slotMut_evicted some_place keeps shared other] at some_bucket
        cases some_bucket
      · rw [slot_slotMut_other shared, same] at some_bucket
        exact h.numbered i some_bucket
  · intro i above below
    by_cases other : i = e
    · subst other
      rw [own, Option.getD_some, same, h.kept i above below, recorded]
    · rw [slot_slotMut_other (apart i above (by omega) other), same, h.kept i above below,
        bucketSoFar_append stamp, if_neg (by omega)]
  · intro i above begun
    by_cases other : i = e
    · rw [other, own]
      rfl
    · have before : i ≤ e := by
        have started := (Nat.le_div_iff_mul_le (resolution_pos spec)).mpr (Nat.le_of_lt begun)
        omega
      rw [slot_slotMut_other (apart i above before other), same]
      exact h.touched i above begun

theorem record_own (x : Sample) (stamp : offset origin c = now) (sample : c.sample = some x)
    (unsold : c.print = none) :
    (bucketSoFar spec.resolution origin calls now (now / spec.resolution)).record x.mid x.spread
        x.integrity =
      bucketSoFar spec.resolution origin (calls ++ [c]) now (now / spec.resolution) := by
  rw [bucketSoFar_append stamp, if_pos rfl, bucketSoFar, record_bucketWith, sample, unsold]
  simp only [Option.toList_some, Option.toList_none, List.append_nil]

theorem recordTrade_own (p : Print) (stamp : offset origin c = now) (quiet : c.sample = none)
    (print : c.print = some p) :
    (bucketSoFar spec.resolution origin calls now (now / spec.resolution)).recordTrade p.price
        p.qty =
      bucketSoFar spec.resolution origin (calls ++ [c]) now (now / spec.resolution) := by
  rw [bucketSoFar_append stamp, if_pos rfl, bucketSoFar, recordTrade_bucketWith, quiet, print]
  simp only [Option.toList_some, Option.toList_none, List.append_nil]

/-- One call keeps the account. -/
theorem step_accounts (h : AtRest spec origin calls now s) (small : offset origin c < 2 ^ 64)
    (sorted : ∀ d ∈ calls, offset origin d ≤ offset origin c) :
    AtRest spec origin (calls ++ [c]) (offset origin c) (step s c) := by
  have latest : offset origin c = 0 ∨ ∃ d ∈ calls ++ [c], offset origin c = offset origin d :=
    .inr ⟨c, by simp, rfl⟩
  obtain ⟨charged, upTo⟩ := charge_accounts h small sorted
  have number : (s.charge c.time).indexAt c.time = offset origin c / spec.resolution :=
    charged.indexOf small
  cases c with
  | read time => exact ⟨accounts_silent charged rfl rfl rfl rfl, upTo, small, latest⟩
  | observeTrade price qty time =>
    rw [Call.time] at number charged upTo
    rw [step, RollingWindows.observeTrade, number]
    refine ⟨?_, upTo, small, latest⟩
    rw [slotMut_ring]
    exact accounts_write charged rfl rfl (fun _ => rfl)
      (recordTrade_own ⟨valueOf price, valueOf qty⟩ rfl rfl rfl)
  | observe top time =>
    rw [Call.time] at number charged upTo
    rw [step]
    cases sample : sampled top with
    | none =>
      rw [observe_unsampled sample]
      exact ⟨accounts_silent charged rfl sample rfl rfl, upTo, small, latest⟩
    | some x =>
      have live : (Call.observe top time).liveness.getD (s.charge time).trusted = true :=
        sampled_live sample
      rw [observe_sampled sample, number]
      refine ⟨?_, upTo, small, latest⟩
      rw [slotMut_ring]
      exact accounts_write charged rfl live (fun _ => rfl) (record_own x rfl sample rfl)

theorem new_slot : (RollingWindows.new spec origin).slot i = none := by
  rw [RollingWindows.slot]
  refine Option.filter_eq_none_iff.mpr fun bucket held => ?_
  obtain rfl := List.eq_of_mem_replicate (List.mem_of_getElem? held)
  simp [Bucket.blank]

theorem new_ring : (RollingWindows.new spec origin).ring =
    min (bucketsFor spec.longest spec.resolution + 1) u64Max := List.length_replicate

theorem new_accounts : AtRest spec origin [] 0 (RollingWindows.new spec origin) := by
  have some_place : 0 < (RollingWindows.new spec origin).ring := by
    rw [new_ring, u64Max]
    omega
  refine ⟨⟨rfl, rfl, some_place, by simp; omega, by simp; omega, by simp, rfl, ?_, ?_, ?_⟩, rfl,
    by decide, .inl rfl⟩
  · intro i some_bucket
    rw [new_slot] at some_bucket
    cases some_bucket
  · intro i above below
    rw [new_slot, Option.getD_none]
    have first : i = 0 := by simpa using below
    subst first
    rw [bucketSoFar, downSoFar_unreached (by omega)]
    rfl
  · intro i above begun
    omega

@[simp] theorem step_ring : (step s c).ring = s.ring := by
  cases c with
  | read time => exact charge_ring
  | observeTrade price qty time => exact slotMut_ring.trans charge_ring
  | observe top time =>
    rw [step]
    cases sample : sampled top with
    | none =>
      rw [observe_unsampled sample]
      exact charge_ring
    | some x =>
      rw [observe_sampled sample]
      exact slotMut_ring.trans charge_ring

theorem run_ring : (exec step s calls).ring = s.ring := by
  induction calls generalizing s with
  | nil => rfl
  | cons c calls ih => exact ih.trans step_ring

/-- Calls in the order of time, none of them 64 bits of nanoseconds after the origin. -/
structure Timely (origin : IngestTime) (calls : List Call) : Prop where
  ordered : calls.Pairwise (fun a b => a.time.mono ≤ b.time.mono)
  within : ∀ c ∈ calls, c.time.mono < origin.mono + 2 ^ 64

theorem Timely.init (h : Timely origin (calls ++ [c])) : Timely origin calls where
  ordered := (List.pairwise_append.mp h.ordered).1
  within := fun d mem => h.within d (List.mem_append_left _ mem)

theorem Timely.small (h : Timely origin (calls ++ [c])) : offset origin c < 2 ^ 64 := by
  have within := h.within c (by simp)
  have elapsed : offset origin c = c.time.mono - origin.mono := rfl
  omega

theorem Timely.sorted (h : Timely origin (calls ++ [c])) :
    ∀ d ∈ calls, offset origin d ≤ offset origin c := by
  intro d mem
  have order := (List.pairwise_append.mp h.ordered).2.2 d mem c (by simp)
  exact Nat.sub_le_sub_right order _

variable (spec) in
/-- After any timely run the ring agrees with the history. -/
theorem run_accounts (h : Timely origin calls) :
    ∃ now, AtRest spec origin calls now (exec step (RollingWindows.new spec origin) calls) := by
  induction calls using List.reverseRecOn with
  | nil => exact ⟨0, new_accounts⟩
  | append_singleton calls c ih =>
    obtain ⟨now, rest⟩ := ih h.init
    refine ⟨offset origin c, ?_⟩
    rw [exec_append]
    exact step_accounts rest h.small h.sorted

end Recording

section Reading

variable {spec : WindowSpec} {origin : IngestTime} {calls : List Call} {low now span : Nat}
  {s : RollingWindows}

theorem reading_totalsOf (spanMs trustedMs : Nat) (samples : List Sample) (prints : List Print) :
    (totalsOf trustedMs samples prints).reading spanMs =
      readingOf spanMs trustedMs samples prints := by
  cases samples with
  | nil =>
    cases prints with
    | nil => rfl
    | cons p prints =>
      simp [totalsOf, readingOf, RollingWindows.Totals.reading, WindowReading.empty]
  | cons x samples =>
    have last := List.getLast?_cons (a := x.mid) (l := samples.map Sample.mid)
    cases prints with
    | nil =>
      simp [totalsOf, readingOf, RollingWindows.Totals.reading, WindowReading.empty, last]
    | cons p prints =>
      simp [totalsOf, readingOf, RollingWindows.Totals.reading, WindowReading.empty, last]

/-- A range of buckets is what the earlier ones hold and then what its last one holds. -/
theorem stamped_succ {resolution lowest bucket : Nat}
    (sorted : calls.Pairwise (fun a b => offset origin a ≤ offset origin b))
    (above : lowest ≤ bucket) :
    stamped resolution origin calls lowest (bucket + 1) =
      stamped resolution origin calls lowest bucket ++
        stamped resolution origin calls bucket (bucket + 1) :=
  filter_split (sorted.imp (fun le => Nat.div_le_div_right le)) above (Nat.le_succ _)

theorem samplesIn_succ {resolution lowest bucket : Nat}
    (sorted : calls.Pairwise (fun a b => offset origin a ≤ offset origin b))
    (above : lowest ≤ bucket) :
    samplesIn resolution origin calls lowest (bucket + 1) =
      samplesIn resolution origin calls lowest bucket ++
        samplesIn resolution origin calls bucket (bucket + 1) := by
  rw [samplesIn, stamped_succ sorted above, List.filterMap_append]
  rfl

theorem printsIn_succ {resolution lowest bucket : Nat}
    (sorted : calls.Pairwise (fun a b => offset origin a ≤ offset origin b))
    (above : lowest ≤ bucket) :
    printsIn resolution origin calls lowest (bucket + 1) =
      printsIn resolution origin calls lowest bucket ++
        printsIn resolution origin calls bucket (bucket + 1) := by
  rw [printsIn, stamped_succ sorted above, List.filterMap_append]
  rfl

theorem range'_extend {lowest bucket : Nat} (above : lowest ≤ bucket) :
    List.range' lowest (bucket + 1 - lowest) =
      List.range' lowest (bucket - lowest) ++ [bucket] := by
  have longer : bucket + 1 - lowest = bucket - lowest + 1 := by omega
  rw [longer, List.range'_1_concat, Nat.add_sub_cancel' above]

theorem trustedIn_succ {resolution lowest bucket : Nat} (above : lowest ≤ bucket) :
    trustedIn resolution origin calls lowest (bucket + 1) =
      trustedIn resolution origin calls lowest bucket +
        millis (resolution - downtime resolution origin calls bucket) := by
  rw [trustedIn, range'_extend above, List.map_append, List.sum_append, List.map_singleton,
    List.sum_singleton]
  rfl

/-- Summing up the ring over buckets that are over is summing up the history over them. -/
theorem totals_accounts (h : Accounts spec origin calls low now s)
    (sorted : calls.Pairwise (fun a b => offset origin a ≤ offset origin b))
    {lowest bucket : Nat} (kept : low ≤ lowest) (above : lowest ≤ bucket)
    (passed : bucket ≤ now / spec.resolution) :
    (List.range' lowest (bucket - lowest)).foldl
        (fun t index => (s.slot index).elim t (t.add s.spec.resolution))
        RollingWindows.Totals.zero =
      totalsOf (trustedIn spec.resolution origin calls lowest bucket)
        (samplesIn spec.resolution origin calls lowest bucket)
        (printsIn spec.resolution origin calls lowest bucket) := by
  induction bucket, above using Nat.le_induction with
  | base =>
    have none_stamped : stamped spec.resolution origin calls lowest lowest = [] := by
      refine List.filter_eq_nil_iff.mpr fun c _ => ?_
      simp only [decide_eq_true_eq]
      omega
    rw [trustedIn, samplesIn, printsIn, none_stamped, Nat.sub_self]
    rfl
  | succ bucket above ih =>
    have complete : (bucket + 1) * spec.resolution ≤ now :=
      (Nat.le_div_iff_mul_le (resolution_pos spec)).mp passed
    have begun : bucket * spec.resolution < now := by
      have positive := resolution_pos spec
      rw [Nat.succ_mul] at complete
      omega
    obtain ⟨held, found⟩ := Option.isSome_iff_exists.mp (h.touched bucket (by omega) begun)
    have exactly := h.kept bucket (by omega) (by omega)
    rw [found, Option.getD_some, bucketSoFar, downSoFar_complete complete] at exactly
    rw [range'_extend above, List.foldl_append, ih (by omega), List.foldl_cons, List.foldl_nil,
      found, Option.elim_some, exactly, h.ownSpec, add_bucketWith, ← trustedIn_succ above,
      ← samplesIn_succ sorted above, ← printsIn_succ sorted above]

theorem readSpan_accounts {time : IngestTime} (h : Accounts spec origin calls low now s)
    (sorted : calls.Pairwise (fun a b => offset origin a ≤ offset origin b))
    (reached : now = time.since origin)
    (some_bucket : 0 < bucketsFor span spec.resolution)
    (small : bucketsFor span spec.resolution < 2 ^ 32)
    (kept : low ≤ now / spec.resolution - bucketsFor span spec.resolution) :
    s.readSpan span (now / spec.resolution) = reference spec.resolution origin calls span time := by
  have total := totals_accounts h sorted kept (Nat.sub_le _ _) (Nat.le_refl _)
  rw [reference, ← reached, ← reading_totalsOf, ← total, h.ownSpec]
  generalize number : bucketsFor span spec.resolution = k at *
  have unclamped : min k (2 ^ 32 - 1) = k := by omega
  cases now / spec.resolution with
  | zero =>
    rw [RollingWindows.readSpan, h.ownSpec, number, unclamped, Nat.zero_sub]
    rfl
  | succ newest =>
    have oldest : newest - (k - 1) = newest + 1 - k := by omega
    rw [RollingWindows.readSpan, h.ownSpec, number, unclamped, oldest]

/-- The trusted time of a window fits in its label. -/
theorem trustedIn_le {resolution k : Nat} (small : now < 2 ^ 64) :
    trustedIn resolution origin calls (now / resolution - k) (now / resolution) ≤
      millis (min (resolution * k) durationMax) := by
  have floor := Nat.div_mul_le_self now resolution
  generalize now / resolution = current at *
  have counted : current - (current - k) ≤ k := by omega
  have each : ∀ x ∈ (List.range' (current - k) (current - (current - k))).map
      (fun bucket => millis (resolution - downtime resolution origin calls bucket)),
      x ≤ resolution / nanosPerMilli := by
    intro x mem
    obtain ⟨bucket, _, rfl⟩ := List.mem_map.mp mem
    exact Nat.le_trans (Nat.min_le_left _ _) (Nat.div_le_div_right (Nat.sub_le _ _))
  have sum := List.sum_le_card_nsmul _ _ each
  rw [List.length_map, List.length_range', nsmul_eq_mul, Nat.cast_id] at sum
  have rounded := Nat.mul_div_le_mul_div_assoc (current - (current - k)) resolution nanosPerMilli
  have labelled : (current - (current - k)) * resolution ≤ resolution * k := by
    rw [Nat.mul_comm resolution]
    exact Nat.mul_le_mul_right _ counted
  have elapsed : (current - (current - k)) * resolution ≤ now :=
    Nat.le_trans (Nat.mul_le_mul_right _ (Nat.sub_le _ _)) floor
  have long : now ≤ durationMax := Nat.le_trans (Nat.le_of_lt small) (by decide)
  have covered := Nat.div_le_div_right (c := nanosPerMilli)
    (Nat.le_min.mpr ⟨labelled, Nat.le_trans elapsed long⟩)
  have clamped : (current - (current - k)) * resolution / nanosPerMilli ≤ u64Max :=
    Nat.le_trans (Nat.div_le_self _ _) (Nat.le_trans elapsed (Nat.le_pred_of_lt small))
  rw [trustedIn, millis]
  omega

/-- The spans of a specification are at least one bucket long. -/
theorem new_some_bucket {resolution : Nat} {spans : List Nat}
    (mem : span ∈ (WindowSpec.new resolution spans).spans) :
    0 < bucketsFor span (WindowSpec.new resolution spans).resolution := by
  obtain ⟨given, _, rfl⟩ := List.mem_map.mp mem
  have positive := resolution_pos (WindowSpec.new resolution spans)
  have long : max resolution nanosPerMilli ≤ max given (max resolution nanosPerMilli) :=
    Nat.le_max_right _ _
  rw [bucketsFor, WindowSpec.new] at *
  dsimp only at *
  rw [Nat.max_eq_left positive, Nat.lt_min]
  exact ⟨Nat.div_pos (by omega) positive, by decide⟩

theorem le_longest (mem : span ∈ spec.spans) : span ≤ spec.longest := by
  obtain ⟨longest, found⟩ := Option.isSome_iff_exists.mp (List.isSome_max?_of_mem mem)
  rw [WindowSpec.longest, found]
  exact (List.max?_eq_some_iff.mp found).2 span mem

theorem bucketsFor_mono {longer : Nat} (resolution : Nat) (le : span ≤ longer) :
    bucketsFor span resolution ≤ bucketsFor longer resolution :=
  min_le_min_right _ (Nat.div_le_div_right (by omega))

variable (origin) in
theorem ring_covers {resolution : Nat} {spans : List Nat}
    (small : ∀ span ∈ (WindowSpec.new resolution spans).spans,
      bucketsFor span (WindowSpec.new resolution spans).resolution < 2 ^ 32)
    (mem : span ∈ (WindowSpec.new resolution spans).spans) :
    bucketsFor span (WindowSpec.new resolution spans).resolution <
      (RollingWindows.new (WindowSpec.new resolution spans) origin).ring := by
  have reached := bucketsFor_mono (WindowSpec.new resolution spans).resolution (le_longest mem)
  have bounded := small span mem
  rw [new_ring, u64Max]
  omega

/-- Every reading of a timely run is the reading of its history, and its trusted time fits. -/
theorem readings_exact (resolution : Nat) (spans : List Nat) (origin : IngestTime)
    (calls : List Call) (now : IngestTime)
    (small : ∀ span ∈ (WindowSpec.new resolution spans).spans,
      bucketsFor span (WindowSpec.new resolution spans).resolution < 2 ^ 32)
    (timely : Timely origin (calls ++ [.read now])) :
    let spec := WindowSpec.new resolution spans
    let readings := ((exec step (RollingWindows.new spec origin) calls).read now).1
    readings = spec.spans.map (fun span => reference spec.resolution origin calls span now) ∧
      ∀ reading ∈ readings, reading.trustedMs ≤ reading.spanMs := by
  intro spec readings
  have recent : now.since origin < 2 ^ 64 := timely.small
  obtain ⟨last, rest⟩ := run_accounts spec timely.init
  obtain ⟨charged, _⟩ := charge_accounts (c := .read now) rest recent timely.sorted
  rw [charge_ring, run_ring] at charged
  have sorted : calls.Pairwise (fun a b => offset origin a ≤ offset origin b) :=
    timely.init.ordered.imp (fun le => Nat.sub_le_sub_right le _)
  have exactly : readings =
      spec.spans.map (fun span => reference spec.resolution origin calls span now) := by
    have ownSpans := congrArg WindowSpec.spans charged.ownSpec
    refine (congrArg (List.map _) ownSpans).trans (List.map_congr_left fun span mem => ?_)
    have covers : bucketsFor span spec.resolution < (RollingWindows.new spec origin).ring :=
      ring_covers origin small mem
    have current : ((exec step (RollingWindows.new spec origin) calls).charge now).indexAt now =
        offset origin (.read now) / spec.resolution := charged.indexOf recent
    rw [current]
    exact readSpan_accounts charged sorted rfl (new_some_bucket mem) (small span mem) (by omega)
  refine ⟨exactly, ?_⟩
  rw [exactly]
  intro reading mem
  obtain ⟨span, _, rfl⟩ := List.mem_map.mp mem
  exact trustedIn_le recent

/-- A trusted two-sided book, observed once. -/
def quoted : TopOfBook :=
  ⟨some (Level.whole 100 1), some (Level.whole 102 1), .live .verified ⟨0, 0⟩ none, none⟩

/-- Two buckets of a millisecond, and a stall that is longer than their ring. -/
def stalled : List Call :=
  [.observe quoted ⟨100, 0⟩, .observeTrade (.whole 101) (.whole 2) ⟨500000, 0⟩,
    .observe quoted ⟨7300000, 0⟩]

theorem readings_exact_stalled :
    (∀ span ∈ (WindowSpec.new 1000000 [2000000]).spans,
        bucketsFor span (WindowSpec.new 1000000 [2000000]).resolution < 2 ^ 32) ∧
      Timely ⟨0, 0⟩ (stalled ++ [.read ⟨8500000, 0⟩]) ∧
      ((exec step (RollingWindows.new (WindowSpec.new 1000000 [2000000]) ⟨0, 0⟩) stalled).read
          ⟨8500000, 0⟩).1 =
        (WindowSpec.new 1000000 [2000000]).spans.map (fun span =>
          reference (WindowSpec.new 1000000 [2000000]).resolution ⟨0, 0⟩ stalled span
            ⟨8500000, 0⟩) := by
  have small : ∀ span ∈ (WindowSpec.new 1000000 [2000000]).spans,
      bucketsFor span (WindowSpec.new 1000000 [2000000]).resolution < 2 ^ 32 := by decide
  have timely : Timely ⟨0, 0⟩ (stalled ++ [.read ⟨8500000, 0⟩]) := by
    refine ⟨?_, ?_⟩
    · simp [stalled, Call.time]
    · simp [stalled, Call.time]
  exact ⟨small, timely, (readings_exact _ _ _ _ _ small timely).1⟩

end Reading

end WindowHistory
