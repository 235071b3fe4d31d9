import MarketAggregator.Clocks
import Mathlib.Algebra.Order.Ring.Nat
import Mathlib.Data.UInt

/-!
# Delays between two connections

The ceiling of a delay doubles with every attempt until a cap. The delay is drawn from the
upper half of the ceiling, and a session that lasted long enough starts the schedule over.
An operation that can overflow gives no result where it does.
-/

namespace ReconnectBackoff

open Clocks

def u32Max : Nat := 2 ^ 32 - 1

/-- The longest duration, in nanoseconds. -/
def durationMax : Nat := u64Max * nanosPerSec + (nanosPerSec - 1)

def fitting (bound n : Nat) : Option Nat := if n ≤ bound then some n else none

theorem fitting_some {bound n m : Nat} : fitting bound n = some m ↔ n ≤ bound ∧ n = m := by
  rw [fitting]
  split <;> simp [*]

/-- Picks a delay within a ceiling. -/
structure Jitter (J : Type) where
  sample : J → Nat → Option (Nat × J)
  within : ∀ j ceiling delay next, sample j ceiling = some (delay, next) → delay ≤ ceiling

def noJitter : Jitter Unit where
  sample j ceiling := some (ceiling, j)
  within j ceiling delay next drawn := by
    obtain ⟨rfl, -⟩ := Prod.mk.inj (Option.some.inj drawn)
    exact le_rfl

structure EqualJitter where
  state : UInt64
  deriving DecidableEq

namespace EqualJitter

def seeded (seed : UInt64) : EqualJitter := ⟨seed⟩

def nextU64 (j : EqualJitter) : UInt64 × EqualJitter :=
  let state := j.state + 0x9e3779b97f4a7c15
  let z := (state ^^^ (state >>> 30)) * 0xbf58476d1ce4e5b9
  let z := (z ^^^ (z >>> 27)) * 0x94d049bb133111eb
  (z ^^^ (z >>> 31), ⟨state⟩)

def nanosU64 (d : Nat) : Nat := min d u64Max

/-- A delay from the upper half of the ceiling. -/
def sample (j : EqualJitter) (ceiling : Nat) : Option (Nat × EqualJitter) :=
  let floor := ceiling / 2
  let span := nanosU64 (ceiling - floor)
  if span = 0 then some (ceiling, j)
  else do
    -- The width of the range is a 64-bit sum, and no width is zero.
    let width ← fitting u64Max (span + 1)
    let delay ← fitting durationMax (floor + j.nextU64.1.toNat % width)
    some (delay, j.nextU64.2)

theorem sample_within {j next : EqualJitter} {ceiling delay : Nat}
    (drawn : j.sample ceiling = some (delay, next)) :
    ceiling / 2 ≤ delay ∧ delay ≤ ceiling := by
  rw [sample] at drawn
  split at drawn
  · obtain ⟨rfl, -⟩ := Prod.mk.inj (Option.some.inj drawn)
    omega
  · obtain ⟨width, wide, drawn⟩ := Option.bind_eq_some_iff.mp drawn
    obtain ⟨sum, short, drawn⟩ := Option.bind_eq_some_iff.mp drawn
    obtain ⟨rfl, -⟩ := Prod.mk.inj (Option.some.inj drawn)
    obtain ⟨-, rfl⟩ := fitting_some.mp wide
    obtain ⟨-, rfl⟩ := fitting_some.mp short
    have offset : j.nextU64.1.toNat % (nanosU64 (ceiling - ceiling / 2) + 1) <
        nanosU64 (ceiling - ceiling / 2) + 1 := Nat.mod_lt _ (Nat.succ_pos _)
    have span : nanosU64 (ceiling - ceiling / 2) ≤ ceiling - ceiling / 2 := Nat.min_le_left _ _
    omega

/-- The sums of a draw overflow for no ceiling of at most 2^63 nanoseconds. -/
theorem sample_some (j : EqualJitter) {ceiling : Nat} (short : ceiling ≤ 2 ^ 63) :
    ∃ delay next, j.sample ceiling = some (delay, next) := by
  have span : nanosU64 (ceiling - ceiling / 2) ≤ ceiling - ceiling / 2 := Nat.min_le_left _ _
  have words : u64Max = 2 ^ 64 - 1 := rfl
  have longest : (2 : Nat) ^ 63 ≤ durationMax := by decide
  rw [sample]
  split
  · exact ⟨ceiling, j, rfl⟩
  · have offset : j.nextU64.1.toNat % (nanosU64 (ceiling - ceiling / 2) + 1) <
        nanosU64 (ceiling - ceiling / 2) + 1 := Nat.mod_lt _ (Nat.succ_pos _)
    have width : fitting u64Max (nanosU64 (ceiling - ceiling / 2) + 1) = some _ :=
      fitting_some.mpr ⟨by omega, rfl⟩
    have delay : fitting durationMax (ceiling / 2 +
        j.nextU64.1.toNat % (nanosU64 (ceiling - ceiling / 2) + 1)) = some _ :=
      fitting_some.mpr ⟨by omega, rfl⟩
    exact ⟨_, j.nextU64.2, by rw [width, Option.bind_eq_bind, Option.bind_some, delay]; rfl⟩

end EqualJitter

def equalJitter : Jitter EqualJitter where
  sample := EqualJitter.sample
  within _ _ _ _ drawn := (EqualJitter.sample_within drawn).2

structure BackoffPolicy where
  base : Nat
  cap : Nat
  minStable : Nat

def BackoffPolicy.default : BackoffPolicy where
  base := 500 * nanosPerMilli
  cap := 60 * nanosPerSec
  minStable := 30 * nanosPerSec

/-- Consecutive failures so far drive the exponent. -/
structure Backoff (J : Type) where
  policy : BackoffPolicy
  jitter : J
  attempt : Nat

/-- One shifted to the left, if not by 32 bits or more. -/
def checkedShl (attempt : Nat) : Option Nat := if attempt < 32 then some (2 ^ attempt) else none

def factor (attempt : Nat) : Nat := (checkedShl attempt).getD u32Max

namespace Backoff

variable {J : Type}

def new (policy : BackoffPolicy) (jitter : J) : Backoff J := ⟨policy, jitter, 0⟩

def ceiling (b : Backoff J) : Nat :=
  min ((fitting durationMax (b.policy.base * factor b.attempt)).getD b.policy.cap) b.policy.cap

def nextDelay (jitter : Jitter J) (b : Backoff J) : Option (Nat × Backoff J) := do
  let (delay, next) ← jitter.sample b.jitter b.ceiling
  some (delay, { b with jitter := next, attempt := min (b.attempt + 1) u32Max })

def reset (b : Backoff J) : Backoff J := { b with attempt := 0 }

/-- Whether a session that lasted so long resets the schedule, and the schedule. -/
def noteSession (b : Backoff J) (lasted : Nat) : Bool × Backoff J :=
  let stable := b.policy.minStable ≤ lasted
  (stable, if stable then b.reset else b)

end Backoff

inductive Call where
  | nextDelay
  | noteSession (lasted : Nat)

section Schedule

variable {J : Type} {jitter : Jitter J} {b next : Backoff J} {policy : BackoffPolicy} {k m : Nat}

def step (jitter : Jitter J) (b : Backoff J) : Call → Option (Backoff J)
  | .nextDelay => (b.nextDelay jitter).map Prod.snd
  | .noteSession lasted => some (b.noteSession lasted).2

def run (jitter : Jitter J) (b : Backoff J) (calls : List Call) : Option (Backoff J) :=
  calls.foldlM (step jitter) b

/-- Delays asked for since the last session that lasted long enough. -/
def failed (minStable k : Nat) : Call → Nat
  | .nextDelay => k + 1
  | .noteSession lasted => if minStable ≤ lasted then 0 else k

def failures (policy : BackoffPolicy) (calls : List Call) : Nat :=
  calls.foldl (failed policy.minStable) 0

theorem factor_early (early : k < 32) : factor k = 2 ^ k := by
  rw [factor, checkedShl, if_pos early]
  rfl

theorem factor_late (late : 32 ≤ k) : factor k = u32Max := by
  rw [factor, checkedShl, if_neg (Nat.not_lt.mpr late)]
  rfl

theorem factor_mono (h : k ≤ m) : factor k ≤ factor m := by
  rcases Nat.lt_or_ge m 32 with early | late
  · rw [factor_early early, factor_early (h.trans_lt early)]
    exact Nat.pow_le_pow_right (by decide) h
  · rw [factor_late late]
    rcases Nat.lt_or_ge k 32 with early | late'
    · rw [factor_early early]
      have top : (2 : Nat) ^ k ≤ 2 ^ 31 := Nat.pow_le_pow_right (by decide) (by omega)
      exact top.trans (by decide)
    · rw [factor_late late']

/-- A product that overflows is past every cap. -/
theorem ceiling_eq (bounded : b.policy.cap ≤ durationMax) :
    b.ceiling = min b.policy.cap (b.policy.base * factor b.attempt) := by
  rw [Backoff.ceiling, fitting]
  split
  · exact Nat.min_comm _ _
  · rw [Option.getD_none]
    omega

theorem ceiling_le_cap : b.ceiling ≤ b.policy.cap := Nat.min_le_right _ _

theorem ceiling_mono {b' : Backoff J} (bounded : b.policy.cap ≤ durationMax)
    (same : b'.policy = b.policy) (more : b.attempt ≤ b'.attempt) : b.ceiling ≤ b'.ceiling := by
  rw [ceiling_eq bounded, ceiling_eq (same ▸ bounded), same]
  have product := Nat.mul_le_mul_left b.policy.base (factor_mono more)
  omega

theorem nextDelay_some {delay : Nat} (asked : b.nextDelay jitter = some (delay, next)) :
    delay ≤ b.ceiling ∧ next.policy = b.policy ∧ next.attempt = min (b.attempt + 1) u32Max := by
  obtain ⟨⟨d, j⟩, drawn, shape⟩ := Option.bind_eq_some_iff.mp asked
  obtain ⟨rfl, rfl⟩ := Prod.mk.inj (Option.some.inj shape)
  exact ⟨jitter.within _ _ _ _ drawn, rfl, rfl⟩

theorem noteSession_short {lasted : Nat} (short : lasted < b.policy.minStable) :
    (b.noteSession lasted).2 = b := if_neg (Nat.not_le.mpr short)

/-- The attempts are the failures, up to 32 bits. -/
structure Counts (policy : BackoffPolicy) (k : Nat) (b : Backoff J) : Prop where
  policy : b.policy = policy
  attempt : b.attempt = min k u32Max

theorem counts_step {call : Call} (counts : Counts policy k b)
    (stepped : step jitter b call = some next) :
    Counts policy (failed policy.minStable k call) next := by
  obtain ⟨rfl, attempt⟩ := counts
  cases call with
  | nextDelay =>
    obtain ⟨⟨delay, b'⟩, asked, rfl⟩ := Option.map_eq_some_iff.mp stepped
    obtain ⟨-, same, more⟩ := nextDelay_some asked
    refine ⟨same, ?_⟩
    rw [failed, more, attempt]
    omega
  | noteSession lasted =>
    obtain rfl := Option.some.inj stepped
    rw [failed, Backoff.noteSession]
    split
    · exact ⟨rfl, (Nat.zero_min _).symm⟩
    · exact ⟨rfl, attempt⟩

theorem counts_run {calls : List Call} (counts : Counts policy k b)
    (ran : run jitter b calls = some next) :
    Counts policy (calls.foldl (failed policy.minStable) k) next := by
  induction calls generalizing b k with
  | nil =>
    obtain rfl := Option.some.inj ran
    exact counts
  | cons call calls ih =>
    rw [run, List.foldlM_cons] at ran
    obtain ⟨b', stepped, rest⟩ := Option.bind_eq_some_iff.mp ran
    exact ih (counts_step counts stepped) rest

theorem counts_new (j : J) : Counts policy 0 (Backoff.new policy j) := ⟨rfl, rfl⟩

theorem nextDelay_ok {b : Backoff EqualJitter} (bounded : b.policy.cap ≤ 2 ^ 63) :
    ∃ delay next, b.nextDelay equalJitter = some (delay, next) ∧ b.ceiling / 2 ≤ delay := by
  obtain ⟨delay, j, drawn⟩ :=
    EqualJitter.sample_some b.jitter (Nat.le_trans ceiling_le_cap bounded)
  have asked : b.nextDelay equalJitter =
      some (delay, { b with jitter := j, attempt := min (b.attempt + 1) u32Max }) := by
    change (b.jitter.sample b.ceiling >>= _) = _
    rw [drawn]
    rfl
  exact ⟨delay, _, asked, (EqualJitter.sample_within drawn).1⟩

theorem run_ok {b : Backoff EqualJitter} (counts : Counts policy k b)
    (bounded : policy.cap ≤ 2 ^ 63) (calls : List Call) :
    ∃ next, run equalJitter b calls = some next := by
  induction calls generalizing b k with
  | nil => exact ⟨b, rfl⟩
  | cons call calls ih =>
    have stepped : ∃ b', step equalJitter b call = some b' := by
      cases call with
      | nextDelay =>
        obtain ⟨delay, b', asked, -⟩ := nextDelay_ok (counts.policy ▸ bounded)
        exact ⟨b', by rw [step, asked]; rfl⟩
      | noteSession lasted => exact ⟨_, rfl⟩
    obtain ⟨b', stepped⟩ := stepped
    obtain ⟨next, ran⟩ := ih (counts_step counts stepped)
    exact ⟨next, by rw [run, List.foldlM_cons, stepped]; exact ran⟩

/-- The next delay after some failures. It is at least half a ceiling that doubles with each
failure and then stays at the cap, and a session that was too short leaves it as it is. -/
structure Escalates (policy : BackoffPolicy) (k : Nat) (b : Backoff EqualJitter) : Prop where
  capped : b.ceiling ≤ policy.cap
  early : k < 32 → b.ceiling = min policy.cap (policy.base * 2 ^ k)
  delay : ∃ delay next, b.nextDelay equalJitter = some (delay, next) ∧
    b.ceiling / 2 ≤ delay ∧ delay ≤ b.ceiling ∧ b.ceiling ≤ next.ceiling
  unstable : ∀ lasted, lasted < policy.minStable → (b.noteSession lasted).2 = b

theorem escalates_of_counts {b : Backoff EqualJitter} (counts : Counts policy k b)
    (bounded : policy.cap ≤ 2 ^ 63) : Escalates policy k b := by
  obtain ⟨rfl, attempt⟩ := counts
  have longest : (2 : Nat) ^ 63 ≤ durationMax := by decide
  have few : k < 32 → b.attempt = k := by
    intro early
    have word : u32Max = 2 ^ 32 - 1 := rfl
    omega
  constructor
  case capped => exact ceiling_le_cap
  case early =>
    intro early
    rw [ceiling_eq (bounded.trans longest), few early, factor_early early]
  case delay =>
    obtain ⟨delay, next, asked, least⟩ := nextDelay_ok bounded
    obtain ⟨most, same, more⟩ := nextDelay_some asked
    refine ⟨delay, next, asked, least, most, ceiling_mono (bounded.trans longest) same ?_⟩
    omega
  case unstable => exact fun lasted short => noteSession_short short

/-- No operation of a schedule overflows. Its delays keep their floor and its ceilings never
decrease with the failures. -/
theorem floor_and_ceiling (policy : BackoffPolicy) (bounded : policy.cap ≤ 2 ^ 63) (seed : UInt64)
    (calls : List Call) :
    ∃ b, run equalJitter (Backoff.new policy (EqualJitter.seeded seed)) calls = some b ∧
      Escalates policy (failures policy calls) b ∧
      ∀ seed' calls' b',
        run equalJitter (Backoff.new policy (EqualJitter.seeded seed')) calls' = some b' →
        failures policy calls ≤ failures policy calls' → b.ceiling ≤ b'.ceiling := by
  obtain ⟨b, ran⟩ := run_ok (counts_new (EqualJitter.seeded seed)) bounded calls
  have counts := counts_run (counts_new _) ran
  refine ⟨b, ran, escalates_of_counts counts bounded, ?_⟩
  intro seed' calls' b' ran' more
  have counts' := counts_run (counts_new _) ran'
  have longest : (2 : Nat) ^ 63 ≤ durationMax := by decide
  refine ceiling_mono ((counts.policy ▸ bounded).trans longest)
    (counts'.policy.trans counts.policy.symm) ?_
  rw [counts.attempt, counts'.attempt]
  rw [failures, failures] at more
  omega

theorem floor_and_ceiling_default :
    ∃ b, run equalJitter (Backoff.new .default (EqualJitter.seeded 42))
        [.nextDelay, .noteSession 5, .nextDelay] = some b ∧
      Escalates .default 2 b ∧
      ∀ seed' calls' b',
        run equalJitter (Backoff.new .default (EqualJitter.seeded seed')) calls' = some b' →
        2 ≤ failures .default calls' → b.ceiling ≤ b'.ceiling :=
  floor_and_ceiling .default (by decide) 42 [.nextDelay, .noteSession 5, .nextDelay]

example : (run noJitter (Backoff.new .default ()) [.nextDelay, .nextDelay]).map Backoff.ceiling =
    some 2000000000 := by decide

end Schedule

end ReconnectBackoff
