import MarketAggregator.WindowHistory

/-!
# What the buckets of a ring were written with

Every bucket of a ring sums up the samples and the prints that were written to it since it was
last cleared. A reading is then the reading of the samples and prints in the buckets of its
window, whatever the order of the calls. The rings of all runs are of this kind.
-/

namespace RecordedRings

open Clocks Decimals GuardedRuns MarketEvents OrderBook VenueStreams WindowBuckets WindowHistory

/-- A ring with what was written to its buckets: each sums up its own samples and prints. A
quantity is never negative. -/
structure RecordedRing where
  ring : RollingWindows
  samples : Nat → List Sample
  prints : Nat → List Print
  summed : ∀ i b, ring.slot i = some b →
    ∃ untrusted, b = bucketWith i (samples i) (prints i) untrusted
  nonneg : ∀ i, ∀ p ∈ prints i, 0 ≤ p.qty

/-- A span of a recorded ring at a current bucket. -/
structure Window where
  recorded : RecordedRing
  span : Nat
  current : Nat

namespace Window

def reading (w : Window) : WindowReading := w.recorded.ring.readSpan w.span w.current

/-- The buckets of the window that the ring holds. -/
def held (w : Window) : List Nat :=
  match w.current with
  | 0 => []
  | newest + 1 =>
    let oldest := newest - (bucketsFor w.span w.recorded.ring.spec.resolution - 1)
    (List.range' oldest (newest + 1 - oldest)).filter (fun i => (w.recorded.ring.slot i).isSome)

def samples (w : Window) : List Sample := w.held.flatMap w.recorded.samples

def prints (w : Window) : List Print := w.held.flatMap w.recorded.prints

end Window

section Recording

variable {s : RollingWindows} {i j : Nat} {write : Bucket → Bucket}

theorem totals_recorded (r : RecordedRing) (resolution trustedMs : Nat) (before : List Sample)
    (sold : List Print) (indices : List Nat) : ∃ trusted,
      indices.foldl (fun t index => (r.ring.slot index).elim t (t.add resolution))
          (totalsOf trustedMs before sold) =
        totalsOf trusted
          (before ++ (indices.filter (fun i => (r.ring.slot i).isSome)).flatMap r.samples)
          (sold ++ (indices.filter (fun i => (r.ring.slot i).isSome)).flatMap r.prints) := by
  induction indices generalizing trustedMs before sold with
  | nil => exact ⟨trustedMs, by simp⟩
  | cons i indices ih =>
    cases slot : r.ring.slot i with
    | none =>
      obtain ⟨trusted, total⟩ := ih trustedMs before sold
      refine ⟨trusted, ?_⟩
      rw [List.foldl_cons, slot, Option.elim_none, total, List.filter_cons, slot]
      rfl
    | some b =>
      obtain ⟨untrusted, rfl⟩ := r.summed i b slot
      obtain ⟨trusted, total⟩ := ih (trustedMs + millis (resolution - untrusted))
        (before ++ r.samples i) (sold ++ r.prints i)
      refine ⟨trusted, ?_⟩
      rw [List.foldl_cons, slot, Option.elim_some, add_bucketWith, total, List.filter_cons, slot]
      simp

/-- A reading is the reading of the window's own samples and prints. -/
theorem Window.reading_eq (w : Window) : ∃ spanMs trustedMs,
    w.reading = readingOf spanMs trustedMs w.samples w.prints := by
  rcases w with ⟨r, span, _ | newest⟩
  · exact ⟨_, 0, rfl⟩
  · obtain ⟨trusted, total⟩ := totals_recorded r r.ring.spec.resolution 0 [] []
      (List.range' (newest - (bucketsFor span r.ring.spec.resolution - 1))
        (newest + 1 - (newest - (bucketsFor span r.ring.spec.resolution - 1))))
    have start : totalsOf 0 [] [] = RollingWindows.Totals.zero := rfl
    rw [start, List.nil_append, List.nil_append] at total
    refine ⟨millis (min (r.ring.spec.resolution *
      min (bucketsFor span r.ring.spec.resolution) (2 ^ 32 - 1)) durationMax), trusted, ?_⟩
    rw [reading, RollingWindows.readSpan, total, reading_totalsOf]
    rfl

theorem Window.nonneg (w : Window) : ∀ p ∈ w.prints, 0 ≤ p.qty := by
  intro p mem
  obtain ⟨i, _, own⟩ := List.mem_flatMap.mp mem
  exact w.recorded.nonneg i p own

/-- The second ring holds what the first one did and these samples and prints, or less. -/
structure Grown (r q : RecordedRing) (samples : List Sample) (prints : List Print) : Prop where
  samples : ∀ i, ∀ x ∈ q.samples i, x ∈ r.samples i ∨ x ∈ samples
  prints : ∀ i, ∀ p ∈ q.prints i, p ∈ r.prints i ∨ p ∈ prints

/-- A write appends to what its bucket holds, and evicts another bucket of the same place. -/
theorem recorded_write (r : RecordedRing) (some_place : 0 < r.ring.ring) (i : Nat)
    (keeps : KeepsIndex write) {xs : List Sample} {ps : List Print} (valid : ∀ p ∈ ps, 0 ≤ p.qty)
    (writes : ∀ samples prints untrusted, ∃ after,
      write (bucketWith i samples prints untrusted) =
        bucketWith i (samples ++ xs) (prints ++ ps) after) :
    ∃ q : RecordedRing, q.ring = r.ring.slotMut i write ∧ Grown r q xs ps := by
  obtain ⟨held, sold, untrusted, before, fewer, less⟩ : ∃ held sold untrusted,
      (r.ring.slot i).getD (Bucket.blank (some i)) = bucketWith i held sold untrusted ∧
        held ⊆ r.samples i ∧ sold ⊆ r.prints i := by
    cases slot : r.ring.slot i with
    | none => exact ⟨[], [], 0, rfl, List.nil_subset _, List.nil_subset _⟩
    | some b =>
      obtain ⟨untrusted, rfl⟩ := r.summed i b slot
      exact ⟨_, _, untrusted, rfl, List.Subset.refl _, List.Subset.refl _⟩
  obtain ⟨after, written⟩ := writes held sold untrusted
  have own := slot_slotMut (i := i) some_place keeps
  rw [before, written] at own
  have sample : ∀ x ∈ held ++ xs, x ∈ r.samples i ∨ x ∈ xs := fun x mem =>
    (List.mem_append.mp mem).imp_left (fewer ·)
  have print : ∀ p ∈ sold ++ ps, p ∈ r.prints i ∨ p ∈ ps := fun p mem =>
    (List.mem_append.mp mem).imp_left (less ·)
  refine ⟨⟨r.ring.slotMut i write, Function.update r.samples i (held ++ xs),
    Function.update r.prints i (sold ++ ps), ?_, ?_⟩, rfl, ?_, ?_⟩
  · intro j b found
    by_cases same : j = i
    · subst same
      rw [own] at found
      cases found
      rw [Function.update_self, Function.update_self]
      exact ⟨after, rfl⟩
    · rw [Function.update_of_ne same, Function.update_of_ne same]
      apply r.summed j b
      by_cases shared : r.ring.place j = r.ring.place i
      · rw [slot_slotMut_evicted some_place keeps shared same] at found
        cases found
      · rwa [slot_slotMut_other shared] at found
  · intro j
    by_cases same : j = i
    · subst same
      rw [Function.update_self]
      exact fun p mem => (print p mem).elim (r.nonneg j p) (valid p)
    · rw [Function.update_of_ne same]
      exact r.nonneg j
  · intro j
    dsimp only
    by_cases same : j = i
    · subst same
      rw [Function.update_self]
      exact sample
    · rw [Function.update_of_ne same]
      exact fun x mem => .inl mem
  · intro j
    dsimp only
    by_cases same : j = i
    · subst same
      rw [Function.update_self]
      exact print
    · rw [Function.update_of_ne same]
      exact fun p mem => .inl mem

theorem Grown.trans {r q t : RecordedRing} {xs ys : List Sample} {ps qs : List Print}
    (first : Grown r q xs ps) (second : Grown q t ys qs) : Grown r t (xs ++ ys) (ps ++ qs) where
  samples i x mem := by
    rcases second.samples i x mem with before | new
    · exact (first.samples i x before).imp_right (List.mem_append_left ys)
    · exact .inr (List.mem_append_right xs new)
  prints i p mem := by
    rcases second.prints i p mem with before | new
    · exact (first.prints i p before).imp_right (List.mem_append_left qs)
    · exact .inr (List.mem_append_right ps new)

/-- The contents of a ring do not depend on its clock or its trust. -/
theorem recorded_same (r : RecordedRing) {s : RollingWindows} (buckets : s.buckets = r.ring.buckets) :
    ∃ q : RecordedRing, q.ring = s ∧ Grown r q [] [] := by
  have slots : ∀ i, s.slot i = r.ring.slot i := by
    intro i
    rw [RollingWindows.slot, RollingWindows.slot, RollingWindows.place, RollingWindows.place,
      RollingWindows.ring, RollingWindows.ring, buckets]
  refine ⟨⟨s, r.samples, r.prints, ?_, r.nonneg⟩, rfl, ?_, ?_⟩
  · intro i b found
    exact r.summed i b ((slots i).symm.trans found)
  · exact fun i x mem => .inl mem
  · exact fun i p mem => .inl mem

theorem recorded_charged (r : RecordedRing) (some_place : 0 < r.ring.ring) (i elapsed : Nat) :
    ∃ q : RecordedRing, q.ring = slice r.ring i elapsed ∧ Grown r q [] [] := by
  apply recorded_write r some_place i charged_keepsIndex (List.forall_mem_nil _)
  intro samples prints untrusted
  rw [List.append_nil, List.append_nil]
  cases r.ring.trusted with
  | true => exact ⟨untrusted, rfl⟩
  | false => exact ⟨untrusted + elapsed, rfl⟩

theorem recorded_chargeFrom {now fuel cursor : Nat} (r : RecordedRing)
    (some_place : 0 < r.ring.ring) : ∃ q : RecordedRing,
      q.ring = RollingWindows.chargeFrom now fuel cursor r.ring ∧ Grown r q [] [] := by
  induction fuel generalizing r cursor with
  | zero => exact recorded_same r rfl
  | succ fuel ih =>
    rw [RollingWindows.chargeFrom]
    split
    · have turn : ∀ sliceEnd, ∃ q : RecordedRing,
          q.ring = (if sliceEnd ≤ cursor then
              slice r.ring (r.ring.indexOf cursor) (sliceEnd - cursor)
            else RollingWindows.chargeFrom now fuel sliceEnd
              (slice r.ring (r.ring.indexOf cursor) (sliceEnd - cursor))) ∧
          Grown r q [] [] := by
        intro sliceEnd
        obtain ⟨q, ring, grown⟩ := recorded_charged r some_place (r.ring.indexOf cursor)
          (sliceEnd - cursor)
        rw [← ring]
        split
        · exact ⟨q, rfl, grown⟩
        · have place : 0 < q.ring.ring := by
            rw [ring]
            exact slotMut_ring.symm ▸ some_place
          obtain ⟨t, charged, more⟩ := ih q place
          exact ⟨t, charged, grown.trans more⟩
      exact turn _
    · exact recorded_same r rfl

theorem recorded_charge (r : RecordedRing) (some_place : 0 < r.ring.ring) (now : IngestTime) :
    ∃ q : RecordedRing, q.ring = r.ring.charge now ∧ Grown r q [] [] := by
  rw [RollingWindows.charge]
  split
  · exact recorded_same r rfl
  · dsimp only
    obtain ⟨q, ring, grown⟩ := recorded_chargeFrom r some_place
    obtain ⟨t, charged, same⟩ := recorded_same q (s := { q.ring with chargedTo := now }) rfl
    exact ⟨t, charged.trans (by rw [ring]), grown.trans same⟩

theorem recorded_sampled (r : RecordedRing) (some_place : 0 < r.ring.ring) (i : Nat) (x : Sample) :
    ∃ q : RecordedRing, q.ring =
      r.ring.slotMut i (fun b => b.record x.mid x.spread x.integrity) ∧ Grown r q [x] [] := by
  have keeps : KeepsIndex (fun b => b.record x.mid x.spread x.integrity) := fun _ => rfl
  apply recorded_write r some_place i keeps (List.forall_mem_nil _)
  intro samples prints untrusted
  rw [List.append_nil]
  exact ⟨untrusted, record_bucketWith x⟩

theorem recorded_printed (r : RecordedRing) (some_place : 0 < r.ring.ring) (i : Nat) (p : Print)
    (valid : 0 ≤ p.qty) : ∃ q : RecordedRing,
      q.ring = r.ring.slotMut i (fun b => b.recordTrade p.price p.qty) ∧ Grown r q [] [p] := by
  have keeps : KeepsIndex (fun b => b.recordTrade p.price p.qty) := fun _ => rfl
  apply recorded_write r some_place i keeps (List.forall_mem_singleton.mpr valid)
  intro samples prints untrusted
  rw [List.append_nil]
  exact ⟨untrusted, recordTrade_bucketWith p⟩

/-- What a call writes is its sample or its print. -/
theorem recorded_step (r : RecordedRing) (some_place : 0 < r.ring.ring) (c : Call)
    (valid : ∀ p, c.print = some p → 0 ≤ p.qty) : ∃ q : RecordedRing,
      q.ring = step r.ring c ∧ Grown r q c.sample.toList c.print.toList := by
  obtain ⟨q, ring, grown⟩ := recorded_charge r some_place c.time
  have place : 0 < q.ring.ring := by rwa [ring, charge_ring]
  cases c with
  | read now => exact ⟨q, ring, grown⟩
  | observeTrade price qty now =>
    obtain ⟨t, written, more⟩ := recorded_printed q place (q.ring.indexAt now)
      ⟨valueOf price, valueOf qty⟩ (valid _ rfl)
    refine ⟨t, ?_, grown.trans more⟩
    rw [written, ring]
    rfl
  | observe top now =>
    have own : (Call.observe top now).sample = sampled top := rfl
    have silent : (Call.observe top now).print = none := rfl
    rw [own, silent, step]
    cases sample : sampled top with
    | none =>
      rw [observe_unsampled sample]
      obtain ⟨t, same, more⟩ := recorded_same q
        (s := { r.ring.charge now with trusted := top.state.isLive })
        (congrArg RollingWindows.buckets ring).symm
      exact ⟨t, same, grown.trans more⟩
    | some x =>
      rw [observe_sampled sample]
      obtain ⟨t, same, more⟩ := recorded_same q (s := { r.ring.charge now with trusted := true })
        (congrArg RollingWindows.buckets ring).symm
      have room : 0 < t.ring.ring := by
        rw [same]
        exact charge_ring.symm ▸ some_place
      obtain ⟨u, written, new⟩ := recorded_sampled t room ((r.ring.charge now).indexAt now) x
      exact ⟨u, written.trans (by rw [same]), (grown.trans more).trans new⟩

/-- The ring of every run sums up samples and prints of the run. -/
theorem recorded_run (spec : WindowSpec) (origin : IngestTime) (calls : List Call)
    (valid : ∀ c ∈ calls, ∀ p, c.print = some p → 0 ≤ p.qty) : ∃ r : RecordedRing,
      r.ring = exec step (RollingWindows.new spec origin) calls ∧
        (∀ i, ∀ x ∈ r.samples i, x ∈ calls.filterMap Call.sample) ∧
        ∀ i, ∀ p ∈ r.prints i, p ∈ calls.filterMap Call.print := by
  induction calls using List.reverseRecOn with
  | nil =>
    refine ⟨⟨RollingWindows.new spec origin, fun _ => [], fun _ => [], ?_, ?_⟩, rfl, ?_, ?_⟩
    · intro i b found
      rw [new_slot] at found
      cases found
    · exact fun i => List.forall_mem_nil _
    · exact fun i => List.forall_mem_nil _
    · exact fun i => List.forall_mem_nil _
  | append_singleton calls c ih =>
    obtain ⟨r, ring, samples, prints⟩ := ih fun d mem => valid d (List.mem_append_left _ mem)
    have place : 0 < r.ring.ring := by
      rw [ring, run_ring, new_ring]
      have some_place : 0 < u64Max := by decide
      omega
    obtain ⟨q, stepped, grown⟩ := recorded_step r place c (valid c (by simp))
    refine ⟨q, ?_, ?_, ?_⟩
    · rw [stepped, ring, exec_append]
      rfl
    · intro i x mem
      rw [List.filterMap_append, List.mem_append]
      refine (grown.samples i x mem).imp (samples i x) ?_
      intro own
      simpa [Option.mem_toList] using own
    · intro i p mem
      rw [List.filterMap_append, List.mem_append]
      refine (grown.prints i p mem).imp (prints i p) ?_
      intro own
      simpa [Option.mem_toList] using own

end Recording

end RecordedRings
