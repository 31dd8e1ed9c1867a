import Rtl433.Basic

/-!
# Rtl433 — the pulse analyzer `pwm_analyze`

With `-a` the callback hands the filtered samples to `pwm_analyze` instead of the
demodulators. It keeps its state in seven process-wide statics and prints, for every
pulse, the distance since the previous pulse, where the pulse starts, and its length
with the running average length.

* `AnalyzerState` — the statics `counter`, `print`, `print2`, `pulses_found`,
  `pulse_start`, `pulse_end`, `pulse_avg`, as unbounded integers;
* `analyzeRise`, `analyzeFall` — the two statements around `counter++`;
* `pwmAnalyze` — the loop; calls concatenate (`pwmAnalyze_append`), and every sample
  advances `counter` by one (`counter_pwmAnalyze`);
* `AnalyzerState.Inv` — the invariant of the statics between samples: `print` and
  `print2` never set together, every index and `pulses_found` at most `counter`,
  `pulse_avg` at most the end of the last closed pulse, and `pulses_found ≥ 1` while a
  pulse is open; `inv_pwmAnalyzeSample` is the step lemma, `inv_pwmAnalyze` the run lemma;
* `pwmAnalyze_distance_after_gap` — after a gap of `g` samples the next pulse prints the
  distance `g - 1`;
* **`pwmAnalyze_exact`** — below `2^31` samples every static and every printed number is
  in `int`, and each average divides by `pulses_found ≥ 1`;
* **`pwmAnalyze_counter_overflows`** — `counter` is never reset, so from `2^31` samples on
  it is past `INT_MAX`, and so is the sample index the next pulse is printed at.
-/

namespace Rtl433

/-- The statics of `pwm_analyze`. -/
structure AnalyzerState where
  counter : Int
  print : Int
  print2 : Int
  pulsesFound : Int
  pulseStart : Int
  pulseEnd : Int
  pulseAvg : Int
deriving DecidableEq, Repr

/-- The statics' initialisers: `print = 1`, everything else 0. -/
def AnalyzerState.init : AnalyzerState := ⟨0, 1, 0, 0, 0, 0, 0⟩

/-- What `pwm_analyze` writes to `stderr`. -/
inductive AnalyzeEvent where
  /-- `"pulse_distance %d\n"`, with `counter - pulse_end`. -/
  | pulseDistance (distance : Int)
  /-- `"pulse_start[%d] found at sample %d, value = %d\n"`. -/
  | pulseStart (pulsesFound counter value : Int)
  /-- `"pulse_end  [%d] found at sample %d, pulse lenght = %d, pulse avg lenght = %d\n"`;
  the average is the C quotient `pulse_avg / pulses_found`, truncated toward zero. -/
  | pulseEnd (pulsesFound counter length average : Int)
deriving DecidableEq, Repr

/-- `buf[i] > level_limit` while `print` is set: a pulse starts at sample `counter`. -/
def analyzeRise (levelLimit s : Int) (st : AnalyzerState) : AnalyzerState × List AnalyzeEvent :=
  if levelLimit < s ∧ st.print ≠ 0 then
    let pulsesFound := st.pulsesFound + 1
    ({ st with pulsesFound, pulseStart := st.counter, print := 0, print2 := 1 },
      [.pulseDistance (st.counter - st.pulseEnd), .pulseStart pulsesFound st.counter s])
  else (st, [])

/-- `buf[i] < level_limit`, after `counter++`: a pulse under way ends at sample `counter`,
and `print` is set again. -/
def analyzeFall (levelLimit s : Int) (st : AnalyzerState) : AnalyzerState × List AnalyzeEvent :=
  if s < levelLimit then
    if st.print2 ≠ 0 then
      let pulseAvg := st.pulseAvg + (st.counter - st.pulseStart)
      ({ st with pulseAvg, pulseEnd := st.counter, print2 := 0, print := 1 },
        [.pulseEnd st.pulsesFound st.counter (st.counter - st.pulseStart)
          (pulseAvg.tdiv st.pulsesFound)])
    else ({ st with print := 1 }, [])
  else (st, [])

/-- One iteration of the loop of `pwm_analyze`. -/
def pwmAnalyzeSample (levelLimit : Int) (st : AnalyzerState) (s : Int) :
    AnalyzerState × List AnalyzeEvent :=
  let r := analyzeRise levelLimit s st
  let f := analyzeFall levelLimit s { r.1 with counter := r.1.counter + 1 }
  (f.1, r.2 ++ f.2)

/-- `pwm_analyze(demod, buf, len)` over the samples `buf[0 .. len-1]`. -/
def pwmAnalyze (levelLimit : Int) (st : AnalyzerState) : List Int → AnalyzerState × List AnalyzeEvent
  | [] => (st, [])
  | s :: ss =>
    let r := pwmAnalyzeSample levelLimit st s
    let q := pwmAnalyze levelLimit r.1 ss
    (q.1, r.2 ++ q.2)

/-- A stream split over two calls is one run. -/
theorem pwmAnalyze_append (levelLimit : Int) (st : AnalyzerState) (xs ys : List Int) :
    pwmAnalyze levelLimit st (xs ++ ys) =
      ((pwmAnalyze levelLimit (pwmAnalyze levelLimit st xs).1 ys).1,
        (pwmAnalyze levelLimit st xs).2 ++ (pwmAnalyze levelLimit (pwmAnalyze levelLimit st xs).1 ys).2) := by
  induction xs generalizing st with
  | nil => rfl
  | cons x xs ih => simp [pwmAnalyze, ih]

/-- Every sample advances `counter` by one. -/
theorem counter_pwmAnalyze (levelLimit : Int) (st : AnalyzerState) (xs : List Int) :
    (pwmAnalyze levelLimit st xs).1.counter = st.counter + xs.length := by
  induction xs generalizing st with
  | nil => simp [pwmAnalyze]
  | cons x xs ih =>
    have hstep : (pwmAnalyzeSample levelLimit st x).1.counter = st.counter + 1 := by
      simp only [pwmAnalyzeSample, analyzeFall, analyzeRise]
      split_ifs <;> rfl
    simp only [pwmAnalyze, ih, hstep, List.length_cons, Nat.cast_succ]
    ring

/-! ## One sample

What one iteration does in each of the four situations a sample meets: the start of a
pulse, a later sample of it, the end of a pulse, a later sample of the gap; a sample
equal to the level only counts. -/

section Steps
variable {levelLimit s : Int} {st : AnalyzerState}

/-- A sample above the level while `print` is set: a pulse starts at sample `counter`,
and the distance from the last pulse's end is printed. -/
theorem pwmAnalyzeSample_rise (hs : levelLimit < s) (hp : st.print ≠ 0) :
    pwmAnalyzeSample levelLimit st s =
      ({ st with
          pulsesFound := st.pulsesFound + 1, pulseStart := st.counter, print := 0, print2 := 1,
          counter := st.counter + 1 },
        [.pulseDistance (st.counter - st.pulseEnd), .pulseStart (st.pulsesFound + 1) st.counter s]) := by
  simp [pwmAnalyzeSample, analyzeRise, analyzeFall, hs, hp, not_lt.mpr hs.le]

/-- A sample above the level inside a pulse only counts. -/
theorem pwmAnalyzeSample_high (hs : levelLimit < s) (hp : st.print = 0) :
    pwmAnalyzeSample levelLimit st s = ({ st with counter := st.counter + 1 }, []) := by
  simp [pwmAnalyzeSample, analyzeRise, analyzeFall, hs, hp, not_lt.mpr hs.le]

/-- The sample below the level that ends a pulse: the pulse ends at sample `counter + 1`
(after `counter++`), its length joins `pulse_avg`, and the average is printed. -/
theorem pwmAnalyzeSample_fall (hs : s < levelLimit) (hp2 : st.print2 ≠ 0) :
    pwmAnalyzeSample levelLimit st s =
      ({ st with
          counter := st.counter + 1, pulseAvg := st.pulseAvg + (st.counter + 1 - st.pulseStart),
          pulseEnd := st.counter + 1, print2 := 0, print := 1 },
        [.pulseEnd st.pulsesFound (st.counter + 1) (st.counter + 1 - st.pulseStart)
          ((st.pulseAvg + (st.counter + 1 - st.pulseStart)).tdiv st.pulsesFound)]) := by
  simp [pwmAnalyzeSample, analyzeRise, analyzeFall, hs, hp2, not_lt.mpr hs.le]

/-- A sample below the level after the pulse's end only counts. -/
theorem pwmAnalyzeSample_low (hs : s < levelLimit) (hp2 : st.print2 = 0) :
    pwmAnalyzeSample levelLimit st s = ({ st with counter := st.counter + 1, print := 1 }, []) := by
  simp [pwmAnalyzeSample, analyzeRise, analyzeFall, hs, hp2, not_lt.mpr hs.le]

/-- A sample equal to the level only counts. -/
theorem pwmAnalyzeSample_level :
    pwmAnalyzeSample levelLimit st levelLimit = ({ st with counter := st.counter + 1 }, []) := by
  simp [pwmAnalyzeSample, analyzeRise, analyzeFall]

end Steps

/-! ## The invariant

`print` is set from the end of a pulse to the start of the next, `print2` from a start to
its end; a pulse is closed at most once and opened only after it closes, so the lengths
summed in `pulse_avg` are of disjoint stretches of samples before the last end. -/

/-- `print` and `print2`: exactly one is set. -/
def AnalyzerState.Flags (st : AnalyzerState) : Prop :=
  st.print = 1 ∧ st.print2 = 0 ∨ st.print = 0 ∧ st.print2 = 1

/-- The invariant of the statics between samples. -/
structure AnalyzerState.Inv (st : AnalyzerState) : Prop where
  flags : st.Flags
  pulseEnd : 0 ≤ st.pulseEnd ∧ st.pulseEnd ≤ st.counter
  pulseStart : 0 ≤ st.pulseStart ∧ st.pulseStart ≤ st.counter
  pulsesFound : 0 ≤ st.pulsesFound ∧ st.pulsesFound ≤ st.counter
  pulseAvg : 0 ≤ st.pulseAvg ∧ st.pulseAvg ≤ if st.print2 = 1 then st.pulseStart else st.pulseEnd
  divisor : st.print2 = 1 → 1 ≤ st.pulsesFound

/-- Every number an event prints lies in `[0, n]`, and the divisor of a printed average
is at least 1. The printed sample value is an `int16_t` and is not bounded here. -/
def AnalyzeEvent.Within (n : Int) : AnalyzeEvent → Prop
  | .pulseDistance d => 0 ≤ d ∧ d ≤ n
  | .pulseStart k c _ => 0 ≤ k ∧ k ≤ n ∧ 0 ≤ c ∧ c ≤ n
  | .pulseEnd k c len avg =>
    1 ≤ k ∧ k ≤ n ∧ 0 ≤ c ∧ c ≤ n ∧ 0 ≤ len ∧ len ≤ n ∧ 0 ≤ avg ∧ avg ≤ n

theorem AnalyzeEvent.Within.mono {e : AnalyzeEvent} {n m : Int} (h : e.Within n) (hnm : n ≤ m) :
    e.Within m := by
  cases e <;> simp only [AnalyzeEvent.Within] at h ⊢ <;> omega

/-- The C quotient of a nonnegative number by a positive one lies between 0 and the
number. -/
theorem tdiv_mem {a b : Int} (ha : 0 ≤ a) (hb : 1 ≤ b) : 0 ≤ a.tdiv b ∧ a.tdiv b ≤ a := by
  rw [Int.tdiv_eq_ediv ha (by omega)]
  exact ⟨Int.ediv_nonneg ha (by omega), Int.ediv_le_self _ ha⟩

theorem AnalyzerState.inv_init : AnalyzerState.init.Inv :=
  ⟨.inl ⟨rfl, rfl⟩, by decide, by decide, by decide, by decide, by decide⟩

section Inv
variable {st : AnalyzerState}

/-- A sample that only counts keeps the invariant. -/
theorem AnalyzerState.Inv.tick (h : st.Inv) :
    ({ st with counter := st.counter + 1 } : AnalyzerState).Inv :=
  have ⟨hf, he, hs, hp, ha, hd⟩ := h
  ⟨hf, by dsimp only; omega, by dsimp only; omega, by dsimp only; omega, ha, hd⟩

/-- **The step lemma.** One sample keeps the invariant, and what it prints lies in
`[0, counter + 1]`. -/
theorem inv_pwmAnalyzeSample (h : st.Inv) (levelLimit s : Int) :
    (pwmAnalyzeSample levelLimit st s).1.Inv ∧
      ∀ e ∈ (pwmAnalyzeSample levelLimit st s).2, e.Within (st.counter + 1) := by
  have ⟨hf, he, hs, hp, ha, hd⟩ := h
  rcases lt_trichotomy s levelLimit with hlt | rfl | hgt
  · by_cases hp2 : st.print2 = 0
    · -- a gap sample after the first
      rw [if_neg (by omega)] at ha
      rw [pwmAnalyzeSample_low hlt hp2]
      exact ⟨⟨.inl ⟨rfl, hp2⟩, by dsimp only; omega, by dsimp only; omega, by dsimp only; omega,
        by dsimp only; rw [if_neg (by omega)]; omega, fun h => by dsimp only at h; omega⟩, by simp⟩
    · -- the end of a pulse: its length joins `pulse_avg`, divided by `pulses_found ≥ 1`
      have h1 : st.print2 = 1 := by rcases hf with ⟨-, h⟩ | ⟨-, h⟩ <;> omega
      rw [if_pos h1] at ha
      have hq := tdiv_mem (a := st.pulseAvg + (st.counter + 1 - st.pulseStart)) (by omega) (hd h1)
      rw [pwmAnalyzeSample_fall hlt hp2]
      refine ⟨⟨.inl ⟨rfl, rfl⟩, by dsimp only; omega, by dsimp only; omega, by dsimp only; omega,
        by dsimp only; rw [if_neg (by omega)]; omega, fun h => by dsimp only at h; omega⟩, ?_⟩
      simp only [List.mem_singleton, forall_eq, AnalyzeEvent.Within]
      omega
  · rw [pwmAnalyzeSample_level]
    exact ⟨h.tick, by simp⟩
  · by_cases hp0 : st.print = 0
    · rw [pwmAnalyzeSample_high hgt hp0]
      exact ⟨h.tick, by simp⟩
    · -- the start of a pulse, at sample `counter`
      have h0 : st.print2 = 0 := by rcases hf with ⟨-, h⟩ | ⟨h, -⟩ <;> omega
      rw [if_neg (by omega)] at ha
      rw [pwmAnalyzeSample_rise hgt hp0]
      refine ⟨⟨.inr ⟨rfl, rfl⟩, by dsimp only; omega, by dsimp only; omega, by dsimp only; omega,
        by dsimp only; rw [if_pos rfl]; omega, fun _ => by dsimp only; omega⟩, ?_⟩
      simp only [List.mem_cons, List.mem_singleton, forall_eq_or_imp, forall_eq, AnalyzeEvent.Within,
        List.not_mem_nil, or_false]
      omega

/-- **The run lemma.** A run keeps the invariant, and everything it prints lies in
`[0, counter]` at the run's end. -/
theorem inv_pwmAnalyze (h : st.Inv) (levelLimit : Int) (xs : List Int) :
    (pwmAnalyze levelLimit st xs).1.Inv ∧
      ∀ e ∈ (pwmAnalyze levelLimit st xs).2, e.Within (st.counter + xs.length) := by
  induction xs generalizing st with
  | nil => exact ⟨h, by simp [pwmAnalyze]⟩
  | cons x xs ih =>
    obtain ⟨h₁, hev₁⟩ := inv_pwmAnalyzeSample h levelLimit x
    obtain ⟨h', hev'⟩ := ih h₁
    have hc := counter_pwmAnalyze levelLimit st [x]
    simp only [pwmAnalyze, List.length_cons, Nat.cast_succ, List.mem_append] at hc ⊢
    refine ⟨h', fun e he =>
      he.elim (fun he => (hev₁ e he).mono (by omega)) fun he => (hev' e he).mono ?_⟩
    simp only [List.length_nil, Nat.cast_zero, add_zero, List.append_nil] at hc
    omega

end Inv

/-! ## A gap

From the end of a pulse, the analyzer's reading of the gap that follows: the first sample
below the level closes the pulse one past its own index, and the next pulse prints the
distance from there. -/

section Gap
variable {levelLimit s : Int} {st : AnalyzerState}

/-- After a sample above the level a pulse is open. -/
theorem print2_pwmAnalyzeSample_high (h : st.Flags) (hs : levelLimit < s) :
    (pwmAnalyzeSample levelLimit st s).1.print2 = 1 := by
  rcases h with ⟨hp, -⟩ | ⟨hp, hp2⟩
  · rw [pwmAnalyzeSample_rise hs (by rw [hp]; decide)]
  · rw [pwmAnalyzeSample_high hs hp]; exact hp2

/-- Samples below the level after a pulse's end only count. -/
theorem pwmAnalyze_lows (xs : List Int) (hxs : ∀ x ∈ xs, x < levelLimit) (hp : st.print = 1)
    (hp2 : st.print2 = 0) :
    pwmAnalyze levelLimit st xs = ({ st with counter := st.counter + xs.length }, []) := by
  induction xs generalizing st with
  | nil => simp [pwmAnalyze]
  | cons x xs ih =>
    simp only [pwmAnalyze, pwmAnalyzeSample_low (hxs x (List.mem_cons_self x xs)) hp2]
    rw [@ih { st with counter := st.counter + 1, print := 1 }
      (fun z hz => hxs z (List.mem_cons_of_mem x hz)) rfl hp2]
    simp only [hp, List.length_cons, Nat.cast_succ, List.append_nil, Prod.mk.injEq,
      AnalyzerState.mk.injEq, and_true]
    ring

/-- **A gap.** Samples below the level while a pulse is open: the first ends the pulse at
one past its own index, the others only count. -/
theorem pwmAnalyze_gap (gap : List Int) (hgap : ∀ x ∈ gap, x < levelLimit) (hne : gap ≠ [])
    (hp2 : st.print2 ≠ 0) :
    (pwmAnalyze levelLimit st gap).1.counter = st.counter + gap.length ∧
      (pwmAnalyze levelLimit st gap).1.pulseEnd = st.counter + 1 ∧
      (pwmAnalyze levelLimit st gap).1.print = 1 := by
  obtain ⟨x, xs, rfl⟩ := List.exists_cons_of_ne_nil hne
  simp only [pwmAnalyze, pwmAnalyzeSample_fall (hgap x (List.mem_cons_self x xs)) hp2]
  rw [pwmAnalyze_lows xs (fun z hz => hgap z (List.mem_cons_of_mem x hz)) rfl rfl]
  simp only [List.length_cons, Nat.cast_succ, and_true]
  ring

end Gap

/-- After a stream that ends above the level, a pulse is open. -/
theorem print2_pwmAnalyze_high (levelLimit : Int) (pre : List Int) {h : Int} (hh : levelLimit < h) :
    (pwmAnalyze levelLimit .init (pre ++ [h])).1.print2 = 1 := by
  rw [pwmAnalyze_append]
  exact print2_pwmAnalyzeSample_high (inv_pwmAnalyze AnalyzerState.inv_init levelLimit pre).1.flags hh

/-- **The distance printed after a gap.** After a gap of `g` samples below the level that
follows an open pulse, the pulse that ends it prints the distance `g - 1`: `pulse_end` is one
past the gap's first sample, the new pulse starts at the index of its own first sample. -/
theorem pwmAnalyze_distance_after_gap {levelLimit h' : Int} {st : AnalyzerState}
    (hp2 : st.print2 ≠ 0) (gap : List Int) (hgap : ∀ x ∈ gap, x < levelLimit) (hne : gap ≠ [])
    (hh' : levelLimit < h') :
    (pwmAnalyzeSample levelLimit (pwmAnalyze levelLimit st gap).1 h').2.head? =
      some (.pulseDistance (gap.length - 1)) := by
  obtain ⟨hc, he, hp⟩ := pwmAnalyze_gap gap hgap hne hp2
  rw [pwmAnalyzeSample_rise hh' (by rw [hp]; decide), hc, he]
  simp only [List.head?_cons, Option.some.injEq, AnalyzeEvent.pulseDistance.injEq]
  ring

/-! ## The `int` statics

`counter`, `pulses_found`, `pulse_start`, `pulse_end` and `pulse_avg` are `int`s, and the
printed numbers are `int` expressions over them. -/

/-- The statics hold `int` values. -/
def AnalyzerState.InRange (st : AnalyzerState) : Prop :=
  FitsInt32 st.counter ∧ FitsInt32 st.pulsesFound ∧ FitsInt32 st.pulseStart ∧
    FitsInt32 st.pulseEnd ∧ FitsInt32 st.pulseAvg

/-- The numbers an event prints are `int` values, and a printed average divides by at
least 1. -/
def AnalyzeEvent.InRange : AnalyzeEvent → Prop
  | .pulseDistance d => FitsInt32 d
  | .pulseStart k c _ => FitsInt32 k ∧ FitsInt32 c
  | .pulseEnd k c len avg => 1 ≤ k ∧ FitsInt32 k ∧ FitsInt32 c ∧ FitsInt32 len ∧ FitsInt32 avg

theorem AnalyzeEvent.Within.inRange {e : AnalyzeEvent} {n : Int} (h : e.Within n) (hn : n < 2 ^ 31) :
    e.InRange := by
  cases e <;> simp only [AnalyzeEvent.Within, AnalyzeEvent.InRange, FitsInt32] at h ⊢ <;> omega

/-- Below `2^31` samples every number the analyzer prints is an `int` value, and every
average divides by at least 1. -/
theorem pwmAnalyze_events_inRange (levelLimit : Int) {xs : List Int} (hlen : xs.length < 2 ^ 31) :
    ∀ e ∈ (pwmAnalyze levelLimit .init xs).2, e.InRange := fun e h =>
  ((inv_pwmAnalyze AnalyzerState.inv_init levelLimit xs).2 e h).inRange
    (by change 0 + (xs.length : Int) < 2 ^ 31; omega)

/-- **Below `2^31` samples the analyzer's arithmetic is exact.** For every level and every
stream of fewer than `2^31` samples fed from the initialisers (in any number of calls,
`pwmAnalyze_append`), `counter`, `pulses_found`, `pulse_start`, `pulse_end` and `pulse_avg`
hold `int` values, every sample index, distance, length and average printed is an `int`
value, and every average divides by `pulses_found ≥ 1`: the C arithmetic computes the
unbounded values. -/
theorem pwmAnalyze_exact (levelLimit : Int) (xs : List Int) (hlen : xs.length < 2 ^ 31) :
    (pwmAnalyze levelLimit .init xs).1.InRange ∧
      ∀ e ∈ (pwmAnalyze levelLimit .init xs).2, e.InRange := by
  obtain ⟨⟨-, he, hs, hp, ha, -⟩, -⟩ := inv_pwmAnalyze AnalyzerState.inv_init levelLimit xs
  have hc : (pwmAnalyze levelLimit .init xs).1.counter = xs.length := by
    rw [counter_pwmAnalyze]; exact zero_add _
  have hn : (xs.length : Int) < 2 ^ 31 := by exact_mod_cast hlen
  refine ⟨?_, pwmAnalyze_events_inRange levelLimit hlen⟩
  simp only [AnalyzerState.InRange, FitsInt32]
  split_ifs at ha <;> omega

/-- Two pulses and two gaps at level 10000. -/
theorem pwmAnalyze_exact_two_pulses :
    ([20000, 0, 0, 20000, 0] : List Int).length < 2 ^ 31 ∧
      (pwmAnalyze 10000 .init [20000, 0, 0, 20000, 0]).1.InRange ∧
      ∀ e ∈ (pwmAnalyze 10000 .init [20000, 0, 0, 20000, 0]).2, e.InRange :=
  ⟨by decide, pwmAnalyze_exact 10000 [20000, 0, 0, 20000, 0] (by decide)⟩

/-- **`counter` outgrows `int`.** `counter` advances on every sample and is never reset:
for every `n ≥ 2^31`, on every stream of `n` samples it ends past `INT_MAX`; and after `n`
samples below the level, the pulse that follows is printed at sample `n`, at distance `n`
from the initial `pulse_end`, neither of which an `int` holds. -/
theorem pwmAnalyze_counter_overflows (levelLimit : Int) (n : Nat) (hn : 2 ^ 31 ≤ n) :
    (∀ xs : List Int, xs.length = n → ¬ FitsInt32 (pwmAnalyze levelLimit .init xs).1.counter) ∧
      ∀ lo hi : Int, lo < levelLimit → levelLimit < hi →
        (pwmAnalyze levelLimit .init (List.replicate n lo ++ [hi])).2 =
          [.pulseDistance n, .pulseStart 1 n hi] := by
  refine ⟨fun xs hxs => ?_, fun lo hi hlo hhi => ?_⟩
  · rw [counter_pwmAnalyze, hxs]
    simp only [FitsInt32, AnalyzerState.init, zero_add]
    omega
  · rw [pwmAnalyze_append, @pwmAnalyze_lows levelLimit .init (List.replicate n lo)
      (fun x hx => List.eq_of_mem_replicate hx ▸ hlo) rfl rfl]
    simp [pwmAnalyze, pwmAnalyzeSample_rise hhi, AnalyzerState.init]

/-- `2^31` samples of 0 under the level 10000, then one of 20000. -/
theorem pwmAnalyze_counter_overflows_at :
    ¬ FitsInt32 (pwmAnalyze 10000 .init (List.replicate (2 ^ 31) 0)).1.counter ∧
      (pwmAnalyze 10000 .init (List.replicate (2 ^ 31) 0 ++ [20000])).2 =
        [.pulseDistance ((2 ^ 31 : Nat) : Int), .pulseStart 1 ((2 ^ 31 : Nat) : Int) 20000] :=
  ⟨(pwmAnalyze_counter_overflows 10000 (2 ^ 31) le_rfl).1 _ (List.length_replicate _ _),
    (pwmAnalyze_counter_overflows 10000 (2 ^ 31) le_rfl).2 0 20000 (by decide) (by decide)⟩

end Rtl433
