import Rtl433.Demod
import Rtl433.Analyze

/-!
# Rtl433 — the analyzer's distances against the demodulator's counter

The thresholds of the two instances were read off `pwm_analyze` (the comment above
`level_detect` gives its pulse, short, long and next distances at level 10000), and
`pwm_demod` compares its `sample_counter` against them. The two count a gap differently:

* `pwm_analyze` ends a pulse at `counter` *after* `counter++` on the gap's first sample,
  and starts the next at `counter` *before* `counter++`: for a gap of `g` samples below the
  level it prints the distance `g - 1` (`pwmAnalyze_distance_after_gap`);
* `pwm_demod` restarts its counter on the gap's first sample and counts it, every later
  gap sample, and the next pulse's first sample before it compares: `g + 1`
  (`comparedCounter_after_gap`) — or 1, when the silence reset has frozen the counter
  (`pwmDemod_carrier_freezes_counter`).

* `comparedCounter` — the value the classify statement compares, when it fires;
* **`pwmAnalyze_distance_lags_counter`** — for every stream and every gap the demodulator
  classifies, the analyzer prints `g - 1` where the demodulator compares `g + 1` (or 1).
-/

namespace Rtl433

/-- The `sample_counter` value the classify statement of `pwm_demod` compares against
`short_limit` and `long_limit` at sample `s`, when it fires: the state after the rise,
fall and count statements, which `classifyPhase` reads in `pwmDemodSample`. -/
def comparedCounter (levelLimit : Int) (p : ProtocolState) (s : Int) : Option Int :=
  let q := countPhase (fallPhase levelLimit s (risePhase levelLimit s p))
  if q.pulseDistance ≠ 0 ∧ s > levelLimit then some q.sampleCounter else none

/-! ## The demodulator over a gap

At the end of a pulse no gap is open (`pulseDistance_pwmDemodSample_high`). The gap's
first sample opens one only if `pulse_count` is set; the count then runs from 1, unless
the silence reset stopped it, and a count past `reset_limit` drops the gap. -/

section Gap
variable {levelLimit s : Int} {p : ProtocolState}

/-- A pulse sample classifies an open gap at `sample_counter + 1`. -/
theorem comparedCounter_high (hs : levelLimit < s) :
    comparedCounter levelLimit p s =
      if p.pulseDistance ≠ 0 then some (p.sampleCounter + 1) else none := by
  simp [comparedCounter, risePhase, fallPhase, countPhase, hs, not_lt.mpr hs.le]

/-- After a sample above the level no gap is open: the classify statement or the silence
reset closes it. -/
theorem pulseDistance_pwmDemodSample_high (hs : levelLimit < s) :
    (pwmDemodSample levelLimit p s).1.pulseDistance = 0 := by
  have hc : (classifyPhase levelLimit s
      (countPhase (fallPhase levelLimit s (risePhase levelLimit s p)))).1.pulseDistance = 0 := by
    unfold classifyPhase
    split
    · rfl
    · rename_i h
      exact not_not.mp fun hpd => h ⟨hpd, hs⟩
  simp only [pwmDemodSample, silencePhase]
  split
  · simp [demodResetBitsPacket]
  · exact hc

/-- A sample below the level opens nothing when no pulse is under way. -/
theorem pwmDemodSample_closed (hs : s < levelLimit) (hpc : p.pulseCount = 0)
    (hpd : p.pulseDistance = 0) :
    (pwmDemodSample levelLimit p s).1.pulseCount = 0 ∧
      (pwmDemodSample levelLimit p s).1.pulseDistance = 0 := by
  have hq : (countPhase (fallPhase levelLimit s (risePhase levelLimit s p))).pulseCount = 0 ∧
      (countPhase (fallPhase levelLimit s (risePhase levelLimit s p))).pulseDistance = 0 := by
    simp only [countPhase, fallPhase, risePhase, if_neg (not_lt.mpr hs.le), hpc, ne_eq,
      not_true_eq_false, false_and, if_false]
    split_ifs <;> simp [hpc, hpd]
  simp only [pwmDemodSample, classifyPhase, silencePhase, hq.2, ne_eq, not_true_eq_false, false_and,
    if_false]
  split_ifs <;> simp [hq, demodResetBitsPacket]

theorem pwmDemod_closed (xs : List Int) (hxs : ∀ x ∈ xs, x < levelLimit) (hpc : p.pulseCount = 0)
    (hpd : p.pulseDistance = 0) :
    (pwmDemod levelLimit p xs).1.pulseCount = 0 ∧ (pwmDemod levelLimit p xs).1.pulseDistance = 0 := by
  induction xs generalizing p with
  | nil => exact ⟨hpc, hpd⟩
  | cons x xs ih =>
    obtain ⟨h1, h2⟩ := pwmDemodSample_closed (hxs x (List.mem_cons_self x xs)) hpc hpd
    exact ih (fun z hz => hxs z (List.mem_cons_of_mem x hz)) h1 h2

/-- An open, counted gap that is still open after samples below the level has counted
each of them. -/
theorem sampleCounter_pwmDemod_counted (xs : List Int) (hxs : ∀ x ∈ xs, x < levelLimit)
    (hpc : p.pulseCount = 0) (hst : p.startC = 1) (hc : p.sampleCounter ≤ p.resetLimit)
    (hopen : (pwmDemod levelLimit p xs).1.pulseDistance ≠ 0) :
    (pwmDemod levelLimit p xs).1.sampleCounter = p.sampleCounter + xs.length := by
  induction xs generalizing p with
  | nil => simp [pwmDemod]
  | cons x xs ih =>
    have hx := hxs x (List.mem_cons_self x xs)
    have hxs' := fun z hz => hxs z (List.mem_cons_of_mem x hz)
    rcases lt_or_eq_of_le hc with hlt | heq
    · -- the gap goes on
      have hstep := pwmDemodSample_low hx hpc hst (by omega)
      simp only [pwmDemod, hstep] at hopen ⊢
      rw [ih (p := { p with sampleCounter := p.sampleCounter + 1 }) hxs' hpc hst
        (by dsimp only; omega) hopen]
      simp only [List.length_cons, Nat.cast_succ]
      ring
    · -- the counter passes `reset_limit`: the gap is dropped
      simp only [pwmDemod, pwmDemodSample_low_silence hx hpc hst heq] at hopen
      exact absurd (pwmDemod_closed xs hxs' (by simp [demodResetBitsPacket, hpc])
        (by simp [demodResetBitsPacket])).2 hopen

/-- The falling edge of a counted pulse when `reset_limit = 0`: the count of 1 is already
past it, and the silence reset drops the gap. -/
theorem pwmDemodSample_fall_reset (hs : s < levelLimit) (hpc : p.pulseCount = 1)
    (hst : p.startC = 1) (hr : p.resetLimit = 0) :
    (pwmDemodSample levelLimit p s).1.pulseCount = 0 ∧
      (pwmDemodSample levelLimit p s).1.pulseDistance = 0 := by
  simp [pwmDemodSample, risePhase, fallPhase, countPhase, classifyPhase, silencePhase, hs, hpc, hst,
    hr, not_lt.mpr hs.le, demodResetBitsPacket]

/-- **What the pulse after a gap compares.** From the end of a pulse (no gap open, flags
in `{0, 1}`), over a gap of `g ≥ 1` samples below the level, if the next sample above the
level classifies the gap it compares `g + 1` when `start_c` was set, and 1 when the
silence reset had cleared it. -/
theorem comparedCounter_after_gap (gap : List Int) (hgap : ∀ x ∈ gap, x < levelLimit)
    (hne : gap ≠ []) (hpd : p.pulseDistance = 0) (hflags : p.Flags) (hr : 0 ≤ p.resetLimit)
    {h' v : Int} (hh' : levelLimit < h')
    (hv : comparedCounter levelLimit (pwmDemod levelLimit p gap).1 h' = some v) :
    v = if p.startC = 1 then gap.length + 1 else 1 := by
  obtain ⟨x, xs, rfl⟩ := List.exists_cons_of_ne_nil hne
  have hx := hgap x (List.mem_cons_self x xs)
  have hxs := fun z hz => hgap z (List.mem_cons_of_mem x hz)
  rw [comparedCounter_high hh'] at hv
  split_ifs at hv with hopen
  obtain rfl := Option.some.inj hv
  obtain ⟨hpc | hpc, -, hst⟩ := hflags
  · -- no pulse under way: the gap is never opened
    exact absurd (pwmDemod_closed _ hgap hpc hpd).2 hopen
  rcases hst with hst | hst
  · -- the counter frozen by the silence reset: the gap opens at 0 and nothing counts it
    simp only [pwmDemod, pwmDemodSample_fall_frozen hx hpc hst hr] at hopen ⊢
    rw [pwmDemod_idle (p := { p with
      pulseLength := 0, pulseDistance := 1, sampleCounter := 0, pulseCount := 0 }) xs hxs rfl hst
      (by dsimp only; omega)]
    simp [hst]
  · -- the counter running: the gap opens at 1 and counts every sample
    rcases lt_or_eq_of_le hr with hr1 | hr0
    · simp only [pwmDemod, pwmDemodSample_fall hx hpc hst hr1] at hopen ⊢
      rw [sampleCounter_pwmDemod_counted (p := { p with
        pulseLength := 0, pulseDistance := 1, sampleCounter := 1, pulseCount := 0 }) xs hxs rfl hst
        (by dsimp only; omega) hopen]
      simp only [hst, if_true, List.length_cons, Nat.cast_succ]
      ring
    · obtain ⟨h1, h2⟩ := pwmDemodSample_fall_reset hx hpc hst hr0.symm
      exact absurd (pwmDemod_closed xs hxs h1 h2).2 hopen

end Gap

/-! ## The two readings of one gap -/

/-- **The analyzer's distance is two short of the demodulator's counter.** For every
instance with `reset_limit ≥ 0`, every stream `pre ++ [h]` that ends in a pulse sample,
every gap of `g ≥ 1` samples below the level after it, and every sample `h'` above the level
at which `pwm_demod` classifies the gap comparing `v`: `pwm_analyze`, on the same stream,
prints the distance `g - 1` for the pulse `h'` starts, while `v` is `g + 1` — or 1, when
the silence reset had cleared `start_c` during the pulse. -/
theorem pwmAnalyze_distance_lags_counter (shortLimit longLimit resetLimit levelLimit : Int)
    (hreset : 0 ≤ resetLimit) (pre : List Int) (h : Int) (hh : levelLimit < h) (gap : List Int)
    (hgap : ∀ x ∈ gap, x < levelLimit) (hne : gap ≠ []) (h' : Int) (hh' : levelLimit < h') (v : Int)
    (hv : comparedCounter levelLimit
      (pwmDemod levelLimit (.init shortLimit longLimit resetLimit) (pre ++ h :: gap)).1 h' = some v) :
    (pwmAnalyzeSample levelLimit (pwmAnalyze levelLimit .init (pre ++ h :: gap)).1 h').2.head? =
        some (.pulseDistance (gap.length - 1)) ∧
      v = if (pwmDemod levelLimit (.init shortLimit longLimit resetLimit) (pre ++ [h])).1.startC = 1
        then gap.length + 1 else 1 := by
  have hsplit : pre ++ h :: gap = (pre ++ [h]) ++ gap := by simp
  rw [hsplit] at hv ⊢
  constructor
  · rw [pwmAnalyze_append]
    exact pwmAnalyze_distance_after_gap (by rw [print2_pwmAnalyze_high levelLimit pre hh]; decide)
      gap hgap hne hh'
  · rw [pwmDemod_append_fst] at hv
    have hreach : Reachable levelLimit (.init shortLimit longLimit resetLimit)
        (pwmDemod levelLimit (.init shortLimit longLimit resetLimit) (pre ++ [h])).1 :=
      reachable_pwmDemod .init _
    obtain ⟨hinv, hr⟩ := inv_of_reachable hreset hreach
    have hpd :
        (pwmDemod levelLimit (.init shortLimit longLimit resetLimit) (pre ++ [h])).1.pulseDistance = 0 := by
      rw [pwmDemod_append_fst, pwmDemod_singleton]
      exact pulseDistance_pwmDemodSample_high hh
    exact comparedCounter_after_gap gap hgap hne hpd hinv.flags (by rw [hr]; exact hreset) hh' hv

/-- The Rubicson instance at level 10000: a one-sample pulse, a gap of three samples, a
pulse. The analyzer prints the distance 2; the demodulator compares 4. -/
theorem rubicson_gap_distance_two_counter_four :
    (0 ≤ (5000 : Int) ∧ (10000 : Int) < 20000 ∧ (∀ x ∈ ([0, 0, 0] : List Int), x < 10000) ∧
      ([0, 0, 0] : List Int) ≠ [] ∧ (10000 : Int) < 20000 ∧
      comparedCounter 10000 (pwmDemod 10000 (.init 1744 3500 5000) ([] ++ 20000 :: [0, 0, 0])).1
        20000 = some 4) ∧
    (pwmAnalyzeSample 10000 (pwmAnalyze 10000 .init ([] ++ 20000 :: [0, 0, 0])).1 20000).2.head? =
        some (.pulseDistance (([0, 0, 0] : List Int).length - 1)) ∧
      (4 : Int) = if (pwmDemod 10000 (.init 1744 3500 5000) ([] ++ [20000])).1.startC = 1
        then ([0, 0, 0] : List Int).length + 1 else 1 :=
  ⟨⟨by decide, by decide, by decide, by decide, by decide, by decide⟩,
    pwmAnalyze_distance_lags_counter 1744 3500 5000 10000 (by decide) [] 20000 (by decide) [0, 0, 0]
      (by decide) (by decide) 20000 (by decide) 4 (by decide)⟩

end Rtl433
