import MarketAggregator.WindowHistory

/-!
# Calls stamped before what is already charged

Such a call charges nothing and writes to the bucket of its stamp. A bucket of another
number at the same place of the ring is then cleared, whichever of the two is newer. A
late stamp leaves all other buckets alone exactly when its place holds none of them.
-/

namespace LateStamps

open Clocks Decimals GuardedRuns MarketEvents OrderBook WindowBuckets WindowHistory

/-- The write of a call, if it has one. -/
def recorded : Call → Option (Bucket → Bucket)
  | .observe top _ => (sampled top).map (fun x b => b.record x.mid x.spread x.integrity)
  | .observeTrade price qty _ => some (fun b => b.recordTrade (valueOf price) (valueOf qty))
  | .read _ => none

/-- The trust state that a call leaves in force. -/
def trustAfter (s : RollingWindows) (c : Call) : Bool := c.liveness.getD s.trusted

section Steps

variable {s : RollingWindows} {c : Call} {write : Bucket → Bucket}

theorem recorded_keepsIndex (h : recorded c = some write) : KeepsIndex write := by
  cases c with
  | observe top now =>
    obtain ⟨x, _, rfl⟩ := Option.map_eq_some_iff.mp h
    exact fun _ => rfl
  | observeTrade price qty now =>
    obtain rfl := Option.some.inj h
    exact fun _ => rfl
  | read now => cases h

theorem step_silent (h : recorded c = none) :
    step s c = { s.charge c.time with trusted := trustAfter (s.charge c.time) c } := by
  cases c with
  | observe top now => exact observe_unsampled (Option.map_eq_none_iff.mp h)
  | observeTrade price qty now => cases h
  | read now => rfl

theorem step_recorded (h : recorded c = some write) :
    step s c = RollingWindows.slotMut
      { s.charge c.time with trusted := trustAfter (s.charge c.time) c }
      ((s.charge c.time).indexAt c.time) write := by
  cases c with
  | observe top now =>
    obtain ⟨x, sample, rfl⟩ := Option.map_eq_some_iff.mp h
    have live : trustAfter (s.charge now) (.observe top now) = true := sampled_live sample
    rw [Call.time, live]
    exact observe_sampled sample
  | observeTrade price qty now =>
    obtain rfl := Option.some.inj h
    rfl
  | read now => cases h

/-- Time that is charged already is not charged again. -/
theorem charge_late {time : IngestTime} (late : time.mono ≤ s.chargedTo.mono) :
    s.charge time = s := if_pos late

end Steps

section Placement

variable {s : RollingWindows} {c : Call} {write : Bucket → Bucket} {i : Nat}

/-- Every bucket stands at the place of its number. -/
def Placed (s : RollingWindows) : Prop :=
  ∀ p b i, s.buckets[p]? = some b → b.index = some i → s.place i = p

theorem placed_new {spec : WindowSpec} {origin : IngestTime} :
    Placed (RollingWindows.new spec origin) := by
  intro p b i held number
  obtain rfl := List.eq_of_mem_replicate (List.mem_of_getElem? held)
  cases number

theorem placed_slotMut (h : Placed s) (keeps : KeepsIndex write) :
    Placed (s.slotMut i write) := by
  intro p b j held number
  rw [slotMut_place]
  simp only [RollingWindows.slotMut] at held
  by_cases own : s.place i = p
  · subst own
    have inside := (List.getElem?_eq_some_iff.mp held).1
    rw [List.length_set] at inside
    rw [List.getElem?_set_self inside] at held
    obtain rfl := Option.some.inj held
    have same : j = i := by
      rw [keeps] at number
      split at number <;> rename_i kept
      · exact Option.some.inj (number.symm.trans kept)
      · exact Option.some.inj number.symm
    rw [same]
  · rw [List.getElem?_set_ne own] at held
    exact h p b j held number

theorem placed_chargeFrom {last fuel cursor : Nat} (h : Placed s) :
    Placed (RollingWindows.chargeFrom last fuel cursor s) := by
  induction fuel generalizing cursor s with
  | zero => exact h
  | succ fuel ih =>
    rw [RollingWindows.chargeFrom]
    refine iteInduction (fun _ => ?_) (fun _ => h)
    have charged := fun (elapsed : Nat) => placed_slotMut (i := s.indexOf cursor) h
      (charged_keepsIndex : KeepsIndex (fun b => if s.trusted then b else b.charged elapsed))
    exact iteInduction (fun _ => charged _) (fun _ => ih (charged _))

theorem placed_charge {time : IngestTime} (h : Placed s) : Placed (s.charge time) := by
  rw [RollingWindows.charge]
  split
  · exact h
  · exact placed_chargeFrom h

theorem placed_step (s : RollingWindows) (c : Call) (h : Placed s) : Placed (step s c) := by
  cases writes : recorded c with
  | none =>
    rw [step_silent writes]
    exact placed_charge h
  | some write =>
    rw [step_recorded writes]
    exact placed_slotMut (s := { s.charge c.time with trusted := _ }) (placed_charge h)
      (recorded_keepsIndex writes)

theorem placed_run (spec : WindowSpec) (origin : IngestTime) (calls : List Call) :
    Placed (exec step (RollingWindows.new spec origin) calls) :=
  exec_keeps placed_step placed_new calls

end Placement

section Frames

variable {s t : RollingWindows} {c : Call} {write : Bucket → Bucket} {i j : Nat}

/-- The place of a bucket holds no bucket of another number. -/
def Vacant (s : RollingWindows) (i : Nat) : Prop :=
  ∀ b ∈ s.buckets[s.place i]?, b.index = none ∨ b.index = some i

/-- Two rings that differ in one bucket at most. -/
structure Alike (i : Nat) (s t : RollingWindows) : Prop where
  spec : t.spec = s.spec
  origin : t.origin = s.origin
  chargedTo : t.chargedTo = s.chargedTo
  trusted : t.trusted = s.trusted
  ring : t.ring = s.ring
  elsewhere : ∀ p, p ≠ s.place i → t.buckets[p]? = s.buckets[p]?
  there : t.buckets[s.place i]? = s.buckets[s.place i]? ∨ Vacant s i ∧ Vacant t i

theorem Alike.place (h : Alike i s t) : t.place j = s.place j := by
  rw [RollingWindows.place, h.ring, RollingWindows.place]

theorem Alike.indexOf (h : Alike i s t) (mono : Nat) : t.indexOf mono = s.indexOf mono := by
  rw [RollingWindows.indexOf, h.spec, h.origin, RollingWindows.indexOf]

theorem Alike.bucketStart (h : Alike i s t) (index : Nat) :
    t.bucketStart index = s.bucketStart index := by
  rw [RollingWindows.bucketStart, h.spec, h.origin, RollingWindows.bucketStart]

/-- All other buckets read the same. -/
theorem Alike.slot (h : Alike i s t) (other : j ≠ i) : t.slot j = s.slot j := by
  rw [RollingWindows.slot, RollingWindows.slot, h.place]
  by_cases own : s.place j = s.place i
  · rcases h.there with same | ⟨vacant, vacant'⟩
    · rw [own, same]
    · have nothing : ∀ u : RollingWindows, u.place i = s.place i → Vacant u i →
          (u.buckets[s.place j]?).filter (fun bucket => bucket.index = some j) = none := by
        intro u place free
        refine Option.filter_eq_none_iff.mpr fun b held => ?_
        rcases free b (by rwa [place, ← own]) with blank | number
        · simp [blank]
        · simp [number, Ne.symm other]
      rw [nothing s rfl vacant, nothing t h.place vacant']
  · rw [h.elsewhere _ own]

/-- The bucket that a write leaves at its place. -/
def written (s : RollingWindows) (j : Nat) (write : Bucket → Bucket) : Bucket :=
  let held := s.buckets.getD (s.place j) (Bucket.blank none)
  write (if held.index = some j then held else Bucket.blank (some j))

theorem slotMut_getElem? (p : Nat) : (s.slotMut j write).buckets[p]? =
    if s.place j = p then if p < s.ring then some (written s j write) else none
    else s.buckets[p]? := by
  by_cases here : s.place j = p
  · subst here
    exact List.getElem?_set
  · rw [if_neg here]
    exact List.getElem?_set_ne here

theorem Alike.written (h : Alike i s t)
    (same : t.buckets[s.place j]? = s.buckets[s.place j]?) :
    written t j write = written s j write := by
  rw [LateStamps.written, LateStamps.written, h.place, List.getD_eq_getElem?_getD, same,
    List.getD_eq_getElem?_getD]

/-- Another bucket of a vacant place starts out blank. -/
theorem written_vacant (vacant : Vacant s i) (here : s.place j = s.place i) (other : j ≠ i) :
    written s j write = write (Bucket.blank (some j)) := by
  rw [written, List.getD_eq_getElem?_getD, here]
  cases held : s.buckets[s.place i]? with
  | none => rfl
  | some b =>
    rcases vacant b held with blank | number
    · simp [blank]
    · simp [number, Ne.symm other]

theorem vacant_slotMut (keeps : KeepsIndex write) : Vacant (s.slotMut i write) i := by
  intro b held
  rw [slotMut_place, slotMut_getElem?, if_pos rfl] at held
  split at held
  · obtain rfl := Option.some.inj held
    right
    rw [written, keeps]
    split <;> rename_i number
    · exact number
    · rfl
  · cases held

theorem alike_slotMut (h : Alike i s t) (keeps : KeepsIndex write) :
    Alike i (s.slotMut j write) (t.slotMut j write) := by
  refine ⟨h.spec, h.origin, h.chargedTo, h.trusted, by rw [slotMut_ring, slotMut_ring, h.ring],
    ?_, ?_⟩
  · intro p other
    rw [slotMut_place] at other
    rw [slotMut_getElem?, slotMut_getElem?, h.place, h.ring, h.elsewhere p other]
    by_cases here : s.place j = p
    · rw [h.written (h.elsewhere _ (here ▸ other))]
    · rw [if_neg here, if_neg here]
  · rw [slotMut_place]
    by_cases here : s.place j = s.place i
    · rcases h.there with same | ⟨vacant, vacant'⟩
      · left
        rw [slotMut_getElem?, slotMut_getElem?, h.place, h.ring, same, h.written (here ▸ same)]
      · by_cases own : j = i
        · subst own
          exact .inr ⟨vacant_slotMut keeps, vacant_slotMut keeps⟩
        · left
          have here' : t.place j = t.place i := by rw [h.place, h.place, here]
          rw [slotMut_getElem?, slotMut_getElem?, h.place, h.ring, written_vacant vacant here own,
            written_vacant vacant' here' own, if_pos here, if_pos here]
    · have same : ∀ u : RollingWindows, u.place j = s.place j →
          (u.slotMut j write).buckets[s.place i]? = u.buckets[s.place i]? := by
        intro u place
        rw [slotMut_getElem?, place, if_neg here]
      rw [same s rfl, same t h.place]
      refine h.there.imp id fun ⟨vacant, vacant'⟩ => ⟨fun b held => ?_, fun b held => ?_⟩
      · rw [slotMut_place, same s rfl] at held
        exact vacant b held
      · rw [slotMut_place, h.place, same t h.place, ← h.place] at held
        exact vacant' b held

theorem alike_chargeFrom {last fuel cursor : Nat} (h : Alike i s t) :
    Alike i (RollingWindows.chargeFrom last fuel cursor s)
      (RollingWindows.chargeFrom last fuel cursor t) := by
  induction fuel generalizing cursor s t with
  | zero => exact h
  | succ fuel ih =>
    have charged := fun (elapsed : Nat) => alike_slotMut (j := s.indexOf cursor) h
      (charged_keepsIndex : KeepsIndex (fun b => if s.trusted then b else b.charged elapsed))
    simp only [RollingWindows.chargeFrom, h.indexOf, h.bucketStart, h.trusted]
    by_cases before : cursor < last
    · rw [if_pos before, if_pos before]
      generalize (if s.bucketStart (RollingWindows.saturatingSucc (s.indexOf cursor)) < last then
        s.bucketStart (RollingWindows.saturatingSucc (s.indexOf cursor)) else last) = sliceEnd
      by_cases stopped : sliceEnd ≤ cursor
      · rw [if_pos stopped, if_pos stopped]
        exact charged _
      · rw [if_neg stopped, if_neg stopped]
        exact ih (charged _)
    · rw [if_neg before, if_neg before]
      exact h

theorem alike_charge {time : IngestTime} (h : Alike i s t) :
    Alike i (s.charge time) (t.charge time) := by
  have start : ∀ u, t.indexAt u = s.indexAt u := fun u => h.indexOf u.mono
  simp only [RollingWindows.charge, h.chargedTo, h.ring, h.bucketStart, start]
  by_cases early : time.mono ≤ s.chargedTo.mono
  · rw [if_pos early, if_pos early]
    exact h
  · rw [if_neg early, if_neg early]
    have charged : ∀ fuel cursor, Alike i (RollingWindows.chargeFrom time.mono fuel cursor s)
        (RollingWindows.chargeFrom time.mono fuel cursor t) := fun _ _ => alike_chargeFrom h
    exact ⟨(charged _ _).spec, (charged _ _).origin, rfl, (charged _ _).trusted, (charged _ _).ring,
      (charged _ _).elsewhere, (charged _ _).there⟩

theorem Alike.trust (h : Alike i s t) (trust : Bool) :
    Alike i { s with trusted := trust } { t with trusted := trust } :=
  ⟨h.spec, h.origin, h.chargedTo, rfl, h.ring, h.elsewhere, h.there⟩

theorem alike_step (h : Alike i s t) (c : Call) : Alike i (step s c) (step t c) := by
  have charged : Alike i (s.charge c.time) (t.charge c.time) := alike_charge h
  have trust : trustAfter (t.charge c.time) c = trustAfter (s.charge c.time) c := by
    rw [trustAfter, charged.trusted, trustAfter]
  have number : (t.charge c.time).indexAt c.time = (s.charge c.time).indexAt c.time :=
    charged.indexOf c.time.mono
  cases writes : recorded c with
  | none =>
    rw [step_silent writes, step_silent writes, trust]
    exact charged.trust _
  | some write =>
    rw [step_recorded writes, step_recorded writes, trust, number]
    exact alike_slotMut (charged.trust _) (recorded_keepsIndex writes)

/-- What differs in one bucket differs in that bucket after any run. -/
theorem alike_run (h : Alike i s t) (calls : List Call) :
    Alike i (exec step s calls) (exec step t calls) := by
  induction calls generalizing s t with
  | nil => exact h
  | cons c calls ih => exact ih (alike_step h c)

end Frames

section Lateness

variable {s t : RollingWindows} {c : Call} {write : Bucket → Bucket} {i : Nat}

/-- The completed buckets of a window that is read in a bucket. -/
def Covers (spec : WindowSpec) (span current j : Nat) : Prop :=
  j < current ∧ current ≤ j + max (bucketsFor span spec.resolution) 1

/-- A late call changes one bucket and the trust state. The run without it, but in that trust
state, has the same other buckets from then on, and the same readings of windows without the
one bucket. -/
structure Undamaged (s : RollingWindows) (c : Call) : Prop where
  others : ∀ j, j ≠ s.indexAt c.time → (step s c).slot j = s.slot j
  afterwards : ∀ calls j, j ≠ s.indexAt c.time →
    (exec step (step s c) calls).slot j =
      (exec step { s with trusted := trustAfter s c } calls).slot j
  readings : ∀ calls span current, ¬ Covers s.spec span current (s.indexAt c.time) →
    (exec step (step s c) calls).readSpan span current =
      (exec step { s with trusted := trustAfter s c } calls).readSpan span current

/-- A reading depends on the buckets of its window alone. -/
theorem readSpan_congr {span current : Nat} (spec : t.spec = s.spec)
    (same : ∀ j, Covers s.spec span current j → t.slot j = s.slot j) :
    t.readSpan span current = s.readSpan span current := by
  cases current with
  | zero => rw [RollingWindows.readSpan, RollingWindows.readSpan, spec]
  | succ newest =>
    rw [RollingWindows.readSpan, RollingWindows.readSpan, spec]
    refine congrArg (fun totals => RollingWindows.Totals.reading totals _)
      (List.foldl_ext _ _ _ fun totals j mem => ?_)
    have inside := List.mem_range'_1.mp mem
    have covered : Covers s.spec span (newest + 1) j := ⟨by omega, by omega⟩
    rw [same j covered]

theorem chargeFrom_spec {last fuel cursor : Nat} :
    (RollingWindows.chargeFrom last fuel cursor s).spec = s.spec := by
  induction fuel generalizing cursor s with
  | zero => rfl
  | succ fuel ih =>
    rw [RollingWindows.chargeFrom]
    simp only [apply_ite RollingWindows.spec, ih, slotMut_spec, ite_self]

theorem step_spec : (step s c).spec = s.spec := by
  have charged : (s.charge c.time).spec = s.spec := by
    rw [RollingWindows.charge]
    split
    · rfl
    · exact chargeFrom_spec
  cases writes : recorded c with
  | none =>
    rw [step_silent writes]
    exact charged
  | some write =>
    rw [step_recorded writes]
    exact charged

theorem run_spec {calls : List Call} : (exec step s calls).spec = s.spec := by
  induction calls generalizing s with
  | nil => rfl
  | cons c calls ih => exact ih.trans step_spec

/-- A late call without a write changes the trust state alone. -/
theorem late_silent (late : c.time.mono < s.chargedTo.mono) (silent : recorded c = none) :
    step s c = { s with trusted := trustAfter s c } := by
  rw [step_silent silent, charge_late (Nat.le_of_lt late)]

theorem late_recorded (late : c.time.mono < s.chargedTo.mono) (writes : recorded c = some write) :
    step s c = RollingWindows.slotMut { s with trusted := trustAfter s c } (s.indexAt c.time)
      write := by
  rw [step_recorded writes, charge_late (Nat.le_of_lt late)]

/-- A late call is harmless when it writes nothing or its place holds no other bucket. -/
def Harmless (s : RollingWindows) (c : Call) : Prop :=
  recorded c = none ∨ Vacant s (s.indexAt c.time)

theorem alike_late (late : c.time.mono < s.chargedTo.mono) (harmless : Harmless s c) :
    Alike (s.indexAt c.time) { s with trusted := trustAfter s c } (step s c) := by
  have unchanged : Alike (s.indexAt c.time) { s with trusted := trustAfter s c }
      { s with trusted := trustAfter s c } :=
    ⟨rfl, rfl, rfl, rfl, rfl, fun _ _ => rfl, .inl rfl⟩
  cases writes : recorded c with
  | none =>
    rw [late_silent late writes]
    exact unchanged
  | some write =>
    have vacant := harmless.resolve_left (by rw [writes]; exact Option.some_ne_none _)
    rw [late_recorded late writes]
    refine ⟨rfl, rfl, rfl, rfl, slotMut_ring, fun p other => ?_,
      .inr ⟨vacant, vacant_slotMut (recorded_keepsIndex writes)⟩⟩
    rw [slotMut_getElem?, if_neg (Ne.symm other)]

theorem undamaged_of_harmless (late : c.time.mono < s.chargedTo.mono) (harmless : Harmless s c) :
    Undamaged s c := by
  have alike := alike_late late harmless
  refine ⟨fun j other => alike.slot other,
    fun calls j other => (alike_run alike calls).slot other, ?_⟩
  intro calls span current missed
  refine readSpan_congr (alike_run alike calls).spec fun j covered => ?_
  refine (alike_run alike calls).slot ?_
  rintro rfl
  rw [run_spec] at covered
  exact missed covered

/-- A write at a place that holds another bucket clears that one. -/
theorem harmless_of_undamaged (placed : Placed s) (late : c.time.mono < s.chargedTo.mono)
    (h : Undamaged s c) : Harmless s c := by
  cases writes : recorded c with
  | none => exact .inl writes
  | some write =>
    right
    intro b held
    by_contra other
    obtain ⟨blank, number⟩ := not_or.mp other
    obtain ⟨j, index⟩ := Option.ne_none_iff_exists'.mp blank
    have apart : j ≠ s.indexAt c.time := fun same => number (same ▸ index)
    have place := placed _ b j held index
    have present : s.slot j = some b := by
      rw [RollingWindows.slot, place, held]
      simp [index]
    have inside := (List.getElem?_eq_some_iff.mp held).1
    have evicted := slot_slotMut_evicted (s := { s with trusted := trustAfter s c })
      (Nat.lt_of_le_of_lt (Nat.zero_le _) inside) (recorded_keepsIndex writes) place apart
    rw [← late_recorded late writes, h.others j apart, present] at evicted
    cases evicted

/-- From every reachable state a late call leaves the other buckets alone, then and later on,
exactly when it writes nothing or the place of its bucket holds none of them. -/
theorem undamaged_iff (spec : WindowSpec) (origin : IngestTime) (past : List Call) (c : Call)
    (late : c.time.mono < (exec step (RollingWindows.new spec origin) past).chargedTo.mono) :
    Undamaged (exec step (RollingWindows.new spec origin) past) c ↔
      Harmless (exec step (RollingWindows.new spec origin) past) c :=
  ⟨harmless_of_undamaged (placed_run spec origin past) late, undamaged_of_harmless late⟩

/-- After calls in the order of time, a stamp less than a ring behind is harmless. -/
theorem recent_harmless {spec : WindowSpec} {origin : IngestTime} {past : List Call}
    (timely : Timely origin past)
    (late : c.time.mono < (exec step (RollingWindows.new spec origin) past).chargedTo.mono)
    (recent : (exec step (RollingWindows.new spec origin) past).indexAt
        (exec step (RollingWindows.new spec origin) past).chargedTo <
      (exec step (RollingWindows.new spec origin) past).indexAt c.time +
        (exec step (RollingWindows.new spec origin) past).ring) :
    Harmless (exec step (RollingWindows.new spec origin) past) c := by
  obtain ⟨now, rest⟩ := run_accounts spec timely
  have placed := placed_run spec origin past
  generalize exec step (RollingWindows.new spec origin) past = s at *
  have charged := rest.charged
  have small := rest.small
  have stamp : s.indexAt c.time = (c.time.mono - origin.mono) / spec.resolution :=
    rest.accounts.indexOf (by omega)
  have last : s.indexAt s.chargedTo = now / spec.resolution := by
    rw [RollingWindows.indexAt, rest.accounts.indexOf (by omega), charged, Nat.add_sub_cancel_left]
  rw [last] at recent
  right
  intro b held
  by_contra other
  obtain ⟨blank, number⟩ := not_or.mp other
  obtain ⟨j, index⟩ := Option.ne_none_iff_exists'.mp blank
  have present : s.slot j = some b := by
    rw [RollingWindows.slot, placed _ b j held index, held]
    simp [index]
  have numbered := rest.accounts.numbered j (by rw [present]; rfl)
  have apart : j ≠ s.indexAt c.time := fun same => number (same ▸ index)
  have older : j + s.ring ≤ s.indexAt c.time := by
    by_contra near
    exact apart (place_injective rest.accounts.some_place (placed _ b j held index) (by omega)
      (by omega))
  -- The bucket of the stamp has begun and is charged, so it stands at its place itself.
  have some_place := rest.accounts.some_place
  have positive := resolution_pos spec
  have floor := Nat.div_mul_le_self (c.time.mono - origin.mono) spec.resolution
  rw [← stamp] at floor
  have begun : s.indexAt c.time * spec.resolution < now := by
    have one : 1 * spec.resolution ≤ s.indexAt c.time * spec.resolution :=
      Nat.mul_le_mul_right _ (by omega)
    omega
  obtain ⟨own, found⟩ := Option.isSome_iff_exists.mp
    (rest.accounts.touched _ (by omega) begun)
  rw [RollingWindows.slot, held] at found
  obtain ⟨same, stamped⟩ := Option.filter_eq_some_iff.mp found
  obtain rfl := Option.some.inj same
  exact number (by simpa using stamped)

/-- Five buckets of a quarter of a second, and a print in the sixth. -/
def busy : RollingWindows :=
  exec step (RollingWindows.new (WindowSpec.new 250000000 [1000000000]) ⟨0, 0⟩)
    [.observeTrade (.whole 101) (.whole 2) ⟨1400000000, 0⟩]

/-- A print stamped in the first bucket. -/
def straggler : Call := .observeTrade (.whole 101) (.whole 1) ⟨100000000, 0⟩

theorem late_print_clears_newer_bucket :
    straggler.time.mono < busy.chargedTo.mono ∧ busy.indexAt straggler.time = 0 ∧
      (busy.slot 5).isSome = true ∧ (step busy straggler).slot 5 = none ∧
      ¬ Undamaged busy straggler := by
  have held : (busy.slot 5).isSome = true := by decide +kernel
  have cleared : (step busy straggler).slot 5 = none := by decide +kernel
  have bucket : busy.indexAt straggler.time = 0 := by decide +kernel
  refine ⟨by decide +kernel, bucket, held, cleared, fun h => ?_⟩
  rw [h.others 5 (by rw [bucket]; decide)] at cleared
  rw [cleared] at held
  cases held

theorem undamaged_iff_straggler :
    straggler.time.mono < busy.chargedTo.mono ∧
      (Undamaged busy straggler ↔ Harmless busy straggler) :=
  ⟨by decide +kernel, undamaged_iff _ _ _ _ (by decide +kernel)⟩

end Lateness

end LateStamps
