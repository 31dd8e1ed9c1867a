import Rtl433.BitPacket

/-!
# Rtl433 — the PWM demodulator `pwm_demod`

Each protocol instance runs the same five statements on every filtered sample `s`:

1. `risePhase` — `s > level_limit`: inside a pulse, start counting;
2. `fallPhase` — `pulse_count && s < level_limit`: a falling edge opens a gap, the
   counter restarts;
3. `countPhase` — `start_c`: one more sample;
4. `classifyPhase` — `pulse_distance && s > level_limit`: the pulse that ends a gap
   classifies it by `sample_counter` into a 0 bit, a 1 bit, or a row advance;
5. `silencePhase` — `sample_counter > reset_limit`: the packet is printed and cleared.

`pwmDemodSample` is one iteration and `pwmDemod` the loop; calls concatenate
(`pwmDemod_append`), so a stream split over several calls is one run.

* `Reachable` — the states between samples, from the initial state `main` builds;
* `ProtocolState.Inv` — the invariant of those states: a valid cursor, flags in
  `{0, 1}`, and `0 ≤ sample_counter ≤ reset_limit`; `inv_pwmDemodSample` is the step
  lemma, phase by phase, `inv_of_reachable` the run lemma, and `reachable_inv` what it
  gives the bit matrix;
* `CounterFits` — every `sample_counter++` of a run stays in `int`: below
  `reset_limit = INT_MAX` it holds of every run from an invariant state
  (`counterFits_of_inv`), at `INT_MAX` the counter overflows;
* `pwmDemod_carrier_freezes_counter` — the silence reset leaves `pulse_count` set, so
  after a carrier longer than `reset_limit` the next gap is never counted and yields a
  bit however long it is.
-/

namespace Rtl433

/-! ## The five statements of the loop -/

/-- `if (buf[i] > demod->level_limit) { pulse_count = 1; start_c = 1; }` -/
def risePhase (levelLimit s : Int) (p : ProtocolState) : ProtocolState :=
  if s > levelLimit then { p with pulseCount := 1, startC := 1 } else p

/-- `if (pulse_count && (buf[i] < demod->level_limit))`: the falling edge opens a gap. -/
def fallPhase (levelLimit s : Int) (p : ProtocolState) : ProtocolState :=
  if p.pulseCount ≠ 0 ∧ s < levelLimit then
    { p with pulseLength := 0, pulseDistance := 1, sampleCounter := 0, pulseCount := 0 }
  else p

/-- `if (p->start_c) p->sample_counter++;` -/
def countPhase (p : ProtocolState) : ProtocolState :=
  if p.startC ≠ 0 then { p with sampleCounter := p.sampleCounter + 1 } else p

/-- `if (pulse_distance && (buf[i] > level_limit))`: the gap just ended is a 0 below
`short_limit`, a 1 below `long_limit`, and a row separator otherwise. -/
def classifyPhase (levelLimit s : Int) (p : ProtocolState) : ProtocolState × List DemodEvent :=
  if p.pulseDistance ≠ 0 ∧ s > levelLimit then
    let r :=
      if p.sampleCounter < p.shortLimit then demodAddBit p 0
      else if p.sampleCounter < p.longLimit then demodAddBit p 1
      else
        let r := demodNextBitsPacket p
        ({ r.1 with pulseCount := 0, sampleCounter := 0 }, r.2)
    ({ r.1 with pulseDistance := 0 }, r.2)
  else (p, [])

/-- `if (p->sample_counter > p->reset_limit)`: print and clear the packet. The reset
clears `start_c`, `sample_counter` and `pulse_distance`, not `pulse_count`. -/
def silencePhase (p : ProtocolState) : ProtocolState × List DemodEvent :=
  if p.sampleCounter > p.resetLimit then
    let p := { p with startC := 0, sampleCounter := 0, pulseDistance := 0 }
    (demodResetBitsPacket p, [.printBitsPacket (bitsSnapshot p.bitsBuffer)])
  else (p, [])

/-- One iteration of the loop of `pwm_demod`, on sample `s`. -/
def pwmDemodSample (levelLimit : Int) (p : ProtocolState) (s : Int) :
    ProtocolState × List DemodEvent :=
  let c := classifyPhase levelLimit s (countPhase (fallPhase levelLimit s (risePhase levelLimit s p)))
  let r := silencePhase c.1
  (r.1, c.2 ++ r.2)

/-- `pwm_demod(demod, p, buf, len)` over the samples `buf[0..len)`. -/
def pwmDemod (levelLimit : Int) (p : ProtocolState) : List Int → ProtocolState × List DemodEvent
  | [] => (p, [])
  | s :: ss =>
    let r := pwmDemodSample levelLimit p s
    let q := pwmDemod levelLimit r.1 ss
    (q.1, r.2 ++ q.2)

/-- A stream split over two calls is one run. -/
theorem pwmDemod_append (levelLimit : Int) (p : ProtocolState) (xs ys : List Int) :
    pwmDemod levelLimit p (xs ++ ys) =
      ((pwmDemod levelLimit (pwmDemod levelLimit p xs).1 ys).1,
        (pwmDemod levelLimit p xs).2 ++ (pwmDemod levelLimit (pwmDemod levelLimit p xs).1 ys).2) := by
  induction xs generalizing p with
  | nil => rfl
  | cons x xs ih => simp [pwmDemod, ih]

/-- Consecutive `pwm_demod` calls on the blocks `calls`, each continuing from the state
the one before left. -/
def pwmDemodCalls (levelLimit : Int) (p : ProtocolState) :
    List (List Int) → ProtocolState × List DemodEvent
  | [] => (p, [])
  | c :: cs =>
    let r := pwmDemod levelLimit p c
    let q := pwmDemodCalls levelLimit r.1 cs
    (q.1, r.2 ++ q.2)

/-- However a stream is split into calls, the calls run the concatenated stream. -/
theorem pwmDemodCalls_eq (levelLimit : Int) (p : ProtocolState) (calls : List (List Int)) :
    pwmDemodCalls levelLimit p calls = pwmDemod levelLimit p calls.flatten := by
  induction calls generalizing p with
  | nil => rfl
  | cons c cs ih => simp [pwmDemodCalls, ih, pwmDemod_append]

theorem pwmDemod_append_fst (levelLimit : Int) (p : ProtocolState) (xs ys : List Int) :
    (pwmDemod levelLimit p (xs ++ ys)).1 = (pwmDemod levelLimit (pwmDemod levelLimit p xs).1 ys).1 := by
  rw [pwmDemod_append]

theorem pwmDemod_singleton (levelLimit : Int) (p : ProtocolState) (s : Int) :
    pwmDemod levelLimit p [s] = pwmDemodSample levelLimit p s := by
  simp [pwmDemod]

/-- A protocol instance as `main` builds it: `calloc`, its three limits, then
`demod_reset_bits_packet`. -/
def ProtocolState.init (shortLimit longLimit resetLimit : Int) : ProtocolState :=
  demodResetBitsPacket
    { bitsColIdx := 0, bitsRowIdx := 0, bitsBitColIdx := 0, bitsBuffer := fun _ _ => 0,
      pulseLength := 0, pulseCount := 0, pulseDistance := 0, sampleCounter := 0, startC := 0,
      shortLimit, longLimit, resetLimit }

/-- `demod->rubicson`: `short_limit = 1744`, `long_limit = 3500`, `reset_limit = 5000`. -/
def rubicsonInit : ProtocolState := .init 1744 3500 5000

/-- `demod->prologue`: `short_limit = 3500`, `long_limit = 7000`, `reset_limit = 15000`. -/
def prologueInit : ProtocolState := .init 3500 7000 15000

/-! ## Reachable states and their invariant -/

/-- The states a protocol instance can be in between samples: the one `main` builds,
and any state one more sample leads to, whatever its value. Calls concatenate, so this
covers any sequence of `pwm_demod` calls. -/
inductive Reachable (levelLimit : Int) (p₀ : ProtocolState) : ProtocolState → Prop
  | init : Reachable levelLimit p₀ p₀
  | sample {p : ProtocolState} (s : Int) :
      Reachable levelLimit p₀ p → Reachable levelLimit p₀ (pwmDemodSample levelLimit p s).1

theorem reachable_pwmDemod {levelLimit : Int} {p₀ p : ProtocolState}
    (h : Reachable levelLimit p₀ p) (ss : List Int) :
    Reachable levelLimit p₀ (pwmDemod levelLimit p ss).1 := by
  induction ss generalizing p with
  | nil => exact h
  | cons s ss ih => exact ih (.sample s h)

/-- The demodulator flags `pulse_count`, `pulse_distance` and `start_c` are booleans. -/
def ProtocolState.Flags (p : ProtocolState) : Prop :=
  (p.pulseCount = 0 ∨ p.pulseCount = 1) ∧ (p.pulseDistance = 0 ∨ p.pulseDistance = 1) ∧
    (p.startC = 0 ∨ p.startC = 1)

/-- The invariant inside an iteration: a valid cursor, boolean flags, and a counter in
`[0, reset_limit + slack]` (the count statement may overshoot by one before the
silence statement brings it back). -/
structure ProtocolState.InvUpTo (slack : Int) (p : ProtocolState) : Prop where
  cursor : p.CursorInv
  flags : p.Flags
  counter : 0 ≤ p.sampleCounter ∧ p.sampleCounter ≤ p.resetLimit + slack

/-- **The invariant between samples**: row in `[0, 11]`, byte in `[0, 4]`, bit in
`[0, 7]`, `pulse_count`, `pulse_distance`, `start_c` in `{0, 1}`, and
`0 ≤ sample_counter ≤ reset_limit`. -/
abbrev ProtocolState.Inv (p : ProtocolState) : Prop := p.InvUpTo 0

section Phases

variable {levelLimit s slack : Int} {p : ProtocolState}

theorem invUpTo_risePhase (h : p.InvUpTo slack) : (risePhase levelLimit s p).InvUpTo slack := by
  obtain ⟨hc, ⟨h1, h2, h3⟩, hs⟩ := h
  unfold risePhase; split
  exacts [⟨⟨hc.row, hc.col, hc.bit⟩, ⟨Or.inr rfl, h2, Or.inr rfl⟩, hs⟩, ⟨hc, ⟨h1, h2, h3⟩, hs⟩]

theorem invUpTo_fallPhase (hr : 0 ≤ p.resetLimit + slack) (h : p.InvUpTo slack) :
    (fallPhase levelLimit s p).InvUpTo slack := by
  obtain ⟨hc, ⟨h1, h2, h3⟩, hs⟩ := h
  unfold fallPhase; split
  exacts [⟨⟨hc.row, hc.col, hc.bit⟩, ⟨Or.inl rfl, Or.inr rfl, h3⟩, le_refl 0, hr⟩,
    ⟨hc, ⟨h1, h2, h3⟩, hs⟩]

theorem invUpTo_countPhase (h : p.InvUpTo slack) : (countPhase p).InvUpTo (slack + 1) := by
  obtain ⟨hc, hf, hs⟩ := h
  unfold countPhase; split
  exacts [⟨⟨hc.row, hc.col, hc.bit⟩, hf, by dsimp only; omega⟩, ⟨hc, hf, by omega⟩]

theorem invUpTo_classifyPhase (hr : 0 ≤ p.resetLimit + slack) (h : p.InvUpTo slack) :
    (classifyPhase levelLimit s p).1.InvUpTo slack := by
  obtain ⟨hc, ⟨h1, h2, h3⟩, hs⟩ := h
  unfold classifyPhase; split
  · dsimp only
    split
    · have hc' := cursorInv_demodAddBit hc 0
      exact ⟨⟨hc'.row, hc'.col, hc'.bit⟩, ⟨by simpa using h1, Or.inl rfl, by simpa using h3⟩,
        by simpa using hs⟩
    · split
      · have hc' := cursorInv_demodAddBit hc 1
        exact ⟨⟨hc'.row, hc'.col, hc'.bit⟩, ⟨by simpa using h1, Or.inl rfl, by simpa using h3⟩,
          by simpa using hs⟩
      · have hc' := cursorInv_demodNextBitsPacket hc
        exact ⟨⟨hc'.row, hc'.col, hc'.bit⟩, ⟨Or.inl rfl, Or.inl rfl, by simpa using h3⟩,
          le_refl 0, by simpa using hr⟩
  · exact ⟨hc, ⟨h1, h2, h3⟩, hs⟩

theorem inv_silencePhase (hr : 0 ≤ p.resetLimit) (h : p.InvUpTo slack) :
    (silencePhase p).1.Inv := by
  obtain ⟨hc, ⟨h1, h2, h3⟩, hs⟩ := h
  unfold silencePhase; split
  · exact ⟨cursorInv_demodResetBitsPacket _, ⟨h1, Or.inl rfl, Or.inl rfl⟩, le_refl 0,
      by dsimp only [demodResetBitsPacket]; omega⟩
  · exact ⟨hc, ⟨h1, h2, h3⟩, hs.1, by dsimp only; omega⟩

@[simp] theorem resetLimit_risePhase : (risePhase levelLimit s p).resetLimit = p.resetLimit := by
  unfold risePhase; split <;> rfl

@[simp] theorem resetLimit_fallPhase : (fallPhase levelLimit s p).resetLimit = p.resetLimit := by
  unfold fallPhase; split <;> rfl

@[simp] theorem resetLimit_countPhase : (countPhase p).resetLimit = p.resetLimit := by
  unfold countPhase; split <;> rfl

@[simp] theorem resetLimit_classifyPhase :
    (classifyPhase levelLimit s p).1.resetLimit = p.resetLimit := by
  unfold classifyPhase; split <;> [(dsimp only; split_ifs <;> simp); rfl]

theorem bitsRowIdx_risePhase : (risePhase levelLimit s p).bitsRowIdx = p.bitsRowIdx := by
  unfold risePhase; split <;> rfl

theorem bitsRowIdx_fallPhase : (fallPhase levelLimit s p).bitsRowIdx = p.bitsRowIdx := by
  unfold fallPhase; split <;> rfl

theorem bitsRowIdx_countPhase : (countPhase p).bitsRowIdx = p.bitsRowIdx := by
  unfold countPhase; split <;> rfl

theorem bitsRowIdx_classifyPhase_of_terminal (levelLimit s : Int) (h11 : p.bitsRowIdx = 11) :
    (classifyPhase levelLimit s p).1.bitsRowIdx = 11 := by
  unfold classifyPhase; split
  · dsimp only; split_ifs <;> simp [h11, demodNextBitsPacket_row_of_terminal h11]
  · exact h11

@[simp] theorem resetLimit_pwmDemodSample :
    (pwmDemodSample levelLimit p s).1.resetLimit = p.resetLimit := by
  simp only [pwmDemodSample, silencePhase]; split <;> simp [demodResetBitsPacket]

end Phases

/-- **The step lemma.** One sample keeps the invariant, whatever the sample. -/
theorem inv_pwmDemodSample {p : ProtocolState} (hr : 0 ≤ p.resetLimit) (h : p.Inv)
    (levelLimit s : Int) : (pwmDemodSample levelLimit p s).1.Inv :=
  inv_silencePhase (by rwa [resetLimit_classifyPhase, resetLimit_countPhase, resetLimit_fallPhase,
      resetLimit_risePhase])
    (invUpTo_classifyPhase (by simp; omega)
      (invUpTo_countPhase (invUpTo_fallPhase (by simpa using hr) (invUpTo_risePhase h))))

/-- Once the row cursor is on the terminal row 11, a sample keeps it there unless it
ends the packet. -/
theorem pwmDemodSample_row_of_terminal {levelLimit s : Int} {p : ProtocolState}
    (h11 : p.bitsRowIdx = 11) (hprint : printedPackets (pwmDemodSample levelLimit p s).2 = []) :
    (pwmDemodSample levelLimit p s).1.bitsRowIdx = 11 := by
  simp only [pwmDemodSample, printedPackets_append] at hprint ⊢
  have hq : (countPhase (fallPhase levelLimit s (risePhase levelLimit s p))).bitsRowIdx = 11 := by
    rw [bitsRowIdx_countPhase, bitsRowIdx_fallPhase, bitsRowIdx_risePhase, h11]
  have hc := bitsRowIdx_classifyPhase_of_terminal levelLimit s hq
  revert hprint
  unfold silencePhase
  split <;> simp [hc]

/-- **The run lemma.** Every state reachable from an initialisation with
`reset_limit ≥ 0` keeps the invariant, and its `reset_limit`. -/
theorem inv_of_reachable {shortLimit longLimit resetLimit levelLimit : Int} (hreset : 0 ≤ resetLimit)
    {p : ProtocolState} (hp : Reachable levelLimit (.init shortLimit longLimit resetLimit) p) :
    p.Inv ∧ p.resetLimit = resetLimit := by
  induction hp with
  | init =>
    exact ⟨⟨cursorInv_demodResetBitsPacket _, ⟨Or.inl rfl, Or.inl rfl, Or.inl rfl⟩,
      le_refl 0, by simpa [ProtocolState.init, demodResetBitsPacket] using hreset⟩,
      by simp [ProtocolState.init, demodResetBitsPacket]⟩
  | sample s _ ih =>
    exact ⟨inv_pwmDemodSample (ih.2 ▸ hreset) ih.1 levelLimit s, by simp [ih.2]⟩

/-! ## The counter in `int`

`sample_counter` is an `int`; the model's counter is unbounded. A run of the model is
the C run exactly while each `sample_counter++` stays in range, which `CounterFits`
states sample by sample. The invariant bounds the counter by `reset_limit` between
samples, so below `INT_MAX` every run fits (`counterFits_of_inv`); at `INT_MAX` the
silence test can only fire past it, and a pulse followed by `2^31` samples below the
level takes the counter out of `int` (`counterFits_pulse_gap`). -/

/-- Every `sample_counter++` of a run from `p` over `ss` stays in `int` range. -/
def CounterFits (levelLimit : Int) : ProtocolState → List Int → Prop
  | _, [] => True
  | p, s :: ss =>
    FitsInt32 (countPhase (fallPhase levelLimit s (risePhase levelLimit s p))).sampleCounter ∧
      CounterFits levelLimit (pwmDemodSample levelLimit p s).1 ss

theorem counterFits_append (levelLimit : Int) (p : ProtocolState) (xs ys : List Int) :
    CounterFits levelLimit p (xs ++ ys) ↔
      CounterFits levelLimit p xs ∧ CounterFits levelLimit (pwmDemod levelLimit p xs).1 ys := by
  induction xs generalizing p with
  | nil => simp [CounterFits, pwmDemod]
  | cons x xs ih => simp [CounterFits, pwmDemod, ih, and_assoc]

/-- **Below `INT_MAX` no run overflows the counter**: between samples it is at most
`reset_limit`, and one sample counts at most once. -/
theorem counterFits_of_inv {p : ProtocolState} (hr : 0 ≤ p.resetLimit)
    (hmax : p.resetLimit < 2 ^ 31 - 1) (h : p.Inv) (levelLimit : Int) (xs : List Int) :
    CounterFits levelLimit p xs := by
  induction xs generalizing p with
  | nil => trivial
  | cons x xs ih =>
    have hc := (invUpTo_countPhase (p := fallPhase levelLimit x (risePhase levelLimit x p))
      (invUpTo_fallPhase (by simpa using hr) (invUpTo_risePhase h))).counter
    simp only [resetLimit_countPhase, resetLimit_fallPhase, resetLimit_risePhase] at hc
    exact ⟨⟨by omega, by omega⟩, ih (by simpa using hr) (by simpa using hmax)
      (inv_pwmDemodSample hr h levelLimit x)⟩

/-- An instance cleared by `demod_reset_bits_packet`, idle and with its counter at 0,
keeps the invariant. -/
theorem inv_demodResetBitsPacket {p : ProtocolState} (hr : 0 ≤ p.resetLimit)
    (hflags : p.pulseCount = 0 ∧ (p.pulseDistance = 0 ∨ p.pulseDistance = 1) ∧ p.startC = 0)
    (hsc : p.sampleCounter = 0) : (demodResetBitsPacket p).Inv :=
  ⟨cursorInv_demodResetBitsPacket _, ⟨.inl hflags.1, hflags.2.1, .inl hflags.2.2⟩,
    by simp [demodResetBitsPacket, hsc], by simpa [demodResetBitsPacket, hsc] using hr⟩

/-- **Every reachable state keeps its bounds.** For a protocol instance with any
`0 ≤ reset_limit < INT_MAX` (`main` gives 5000 and 15000), every state reachable from
its initialisation by any samples satisfies `ProtocolState.Inv`; no stream from it takes
`sample_counter++` out of `int`; every `demod_add_bit` from it changes only the cell at
its cursor, inside the 12 × 5 `bits_buffer`; and a saturated cursor stays on byte 4 (for
the bits of its row) and on row 11 (until the packet is printed). -/
theorem reachable_inv (shortLimit longLimit resetLimit levelLimit : Int) (hreset : 0 ≤ resetLimit)
    (hmax : resetLimit < 2 ^ 31 - 1)
    (p : ProtocolState) (hp : Reachable levelLimit (.init shortLimit longLimit resetLimit) p) :
    p.Inv ∧ (∀ xs, CounterFits levelLimit p xs) ∧
      (∀ bit r c, (demodAddBit p bit).1.bitsBuffer r c ≠ p.bitsBuffer r c →
        r = p.bitsRowIdx ∧ c = p.bitsColIdx ∧ 0 ≤ r ∧ r ≤ 11 ∧ 0 ≤ c ∧ c ≤ 4) ∧
      (p.bitsColIdx = 4 → ∀ bit, (demodAddBit p bit).1.bitsColIdx = 4 ∧
        (demodAddBit p bit).1.bitsRowIdx = p.bitsRowIdx) ∧
      (p.bitsRowIdx = 11 → ∀ s, printedPackets (pwmDemodSample levelLimit p s).2 = [] →
        (pwmDemodSample levelLimit p s).1.bitsRowIdx = 11) := by
  obtain ⟨hinv, hr⟩ := inv_of_reachable hreset hp
  refine ⟨hinv, counterFits_of_inv (hr ▸ hreset) (hr ▸ hmax) hinv levelLimit, fun bit r c hne => ?_,
    fun h4 => demodAddBit_col_of_terminal h4, fun h11 _ => pwmDemodSample_row_of_terminal h11⟩
  have hcell : r = p.bitsRowIdx ∧ c = p.bitsColIdx :=
    Classical.byContradiction fun h => hne (demodAddBit_buffer_of_ne p bit h)
  obtain ⟨⟨r0, r1⟩, ⟨c0, c1⟩, -⟩ := hinv.cursor
  exact ⟨hcell.1, hcell.2, by omega⟩

/-- The Rubicson instance after a pulse, a gap and a pulse, then 6000 samples of
silence. -/
theorem reachable_inv_rubicson :
    (pwmDemod 10000 rubicsonInit [20000, 0, 20000]).1.Inv ∧
      CounterFits 10000 (pwmDemod 10000 rubicsonInit [20000, 0, 20000]).1 (List.replicate 6000 0) :=
  have h := reachable_inv 1744 3500 5000 10000 (by norm_num) (by norm_num) _ (reachable_pwmDemod .init _)
  ⟨h.1, h.2.1 _⟩

/-! ## Runs over pulses and gaps

What one sample does in each situation the waveform meets, then what a whole pulse or
gap does (by induction on its samples). The transmission theorem and the frozen-counter
defect are compositions of these. -/

section Runs

variable {levelLimit s : Int} {p : ProtocolState}

/-- A sample above the level, outside a gap: one more sample of the pulse. -/
theorem pwmDemodSample_high (hs : levelLimit < s) (hpd : p.pulseDistance = 0)
    (hc : p.sampleCounter + 1 ≤ p.resetLimit) :
    pwmDemodSample levelLimit p s =
      ({ p with pulseCount := 1, startC := 1, sampleCounter := p.sampleCounter + 1 }, []) := by
  simp [pwmDemodSample, risePhase, fallPhase, countPhase, classifyPhase, silencePhase, hs,
    hpd, not_lt.mpr hs.le, not_lt.mpr hc]

/-- The sample above the level that takes the counter past `reset_limit` inside a
pulse: the packet is printed and cleared, and `pulse_count` stays 1. -/
theorem pwmDemodSample_high_silence (hs : levelLimit < s) (hpd : p.pulseDistance = 0)
    (hc : p.sampleCounter = p.resetLimit) :
    pwmDemodSample levelLimit p s =
      (demodResetBitsPacket { p with pulseCount := 1, startC := 0, sampleCounter := 0 },
        [.printBitsPacket (bitsSnapshot p.bitsBuffer)]) := by
  simp [pwmDemodSample, risePhase, fallPhase, countPhase, classifyPhase, silencePhase, hs,
    hpd, not_lt.mpr hs.le, hc]

/-- A sample below the level that ends a pulse while counting: the gap opens with the
counter at 1. -/
theorem pwmDemodSample_fall (hs : s < levelLimit) (hpc : p.pulseCount = 1) (hst : p.startC = 1)
    (hr : 1 ≤ p.resetLimit) :
    pwmDemodSample levelLimit p s =
      ({ p with pulseLength := 0, pulseDistance := 1, sampleCounter := 1, pulseCount := 0 }, []) := by
  simp [pwmDemodSample, risePhase, fallPhase, countPhase, classifyPhase, silencePhase, hs,
    hpc, hst, not_lt.mpr hs.le, not_lt.mpr hr]

/-- A sample below the level that ends a pulse while *not* counting: the gap opens
with the counter stopped at 0. -/
theorem pwmDemodSample_fall_frozen (hs : s < levelLimit) (hpc : p.pulseCount = 1)
    (hst : p.startC = 0) (hr : 0 ≤ p.resetLimit) :
    pwmDemodSample levelLimit p s =
      ({ p with pulseLength := 0, pulseDistance := 1, sampleCounter := 0, pulseCount := 0 }, []) := by
  simp [pwmDemodSample, risePhase, fallPhase, countPhase, classifyPhase, silencePhase, hs,
    hpc, hst, not_lt.mpr hs.le, not_lt.mpr hr]

/-- A sample below the level inside a counted gap: one more sample of the gap. -/
theorem pwmDemodSample_low (hs : s < levelLimit) (hpc : p.pulseCount = 0) (hst : p.startC = 1)
    (hc : p.sampleCounter + 1 ≤ p.resetLimit) :
    pwmDemodSample levelLimit p s = ({ p with sampleCounter := p.sampleCounter + 1 }, []) := by
  simp [pwmDemodSample, risePhase, fallPhase, countPhase, classifyPhase, silencePhase, hs,
    hpc, hst, not_lt.mpr hs.le, not_lt.mpr hc]

/-- The sample below the level that takes a counted gap past `reset_limit`: the packet
is printed and the demodulator returns to idle. -/
theorem pwmDemodSample_low_silence (hs : s < levelLimit) (hpc : p.pulseCount = 0)
    (hst : p.startC = 1) (hc : p.sampleCounter = p.resetLimit) :
    pwmDemodSample levelLimit p s =
      (demodResetBitsPacket { p with startC := 0, sampleCounter := 0, pulseDistance := 0 },
        [.printBitsPacket (bitsSnapshot p.bitsBuffer)]) := by
  simp [pwmDemodSample, risePhase, fallPhase, countPhase, classifyPhase, silencePhase, hs,
    hpc, hst, not_lt.mpr hs.le, hc]

/-- A sample below the level when nothing is counting changes nothing. -/
theorem pwmDemodSample_low_idle (hs : s < levelLimit) (hpc : p.pulseCount = 0)
    (hst : p.startC = 0) (hc : p.sampleCounter ≤ p.resetLimit) :
    pwmDemodSample levelLimit p s = (p, []) := by
  simp [pwmDemodSample, risePhase, fallPhase, countPhase, classifyPhase, silencePhase, hs,
    hpc, hst, not_lt.mpr hs.le, not_lt.mpr hc]

/-- The band of `sample_counter` values `pwm_demod` reads as bit `b`. -/
def GapBit (shortLimit longLimit n : Int) (b : Bool) : Prop :=
  if b then shortLimit ≤ n ∧ n < longLimit else n < shortLimit

/-- The pulse that ends a gap whose counter `sample_counter + 1` lies in the band of
bit `b`: the bit is appended and the counter keeps running. -/
theorem pwmDemodSample_bit (b : Bool) (hs : levelLimit < s) (hpd : p.pulseDistance = 1)
    (hband : GapBit p.shortLimit p.longLimit (p.sampleCounter + 1) b) (hc : p.sampleCounter + 1 ≤ p.resetLimit) :
    pwmDemodSample levelLimit p s =
      ({ (demodAddBit { p with pulseCount := 1, startC := 1, sampleCounter := p.sampleCounter + 1 }
          (if b then 1 else 0)).1 with pulseDistance := 0 },
        (demodAddBit { p with pulseCount := 1, startC := 1, sampleCounter := p.sampleCounter + 1 }
          (if b then 1 else 0)).2) := by
  unfold GapBit at hband
  cases b
  · simp only [Bool.false_eq_true, if_false] at hband
    simp [pwmDemodSample, risePhase, fallPhase, countPhase, classifyPhase, silencePhase, hs, hpd,
      not_lt.mpr hs.le, hband, not_lt.mpr hc]
  · simp only [if_true] at hband
    simp [pwmDemodSample, risePhase, fallPhase, countPhase, classifyPhase, silencePhase, hs, hpd,
      not_lt.mpr hs.le, not_lt.mpr hband.1, hband.2, not_lt.mpr hc]

/-- The pulse that ends a gap of at least `long_limit` counted samples: the next row
starts and the counter restarts from 0. -/
theorem pwmDemodSample_separator (hs : levelLimit < s) (hpd : p.pulseDistance = 1)
    (hsep : p.longLimit ≤ p.sampleCounter + 1) (hsl : p.shortLimit ≤ p.longLimit)
    (hr : 0 ≤ p.resetLimit) :
    pwmDemodSample levelLimit p s =
      ({ (demodNextBitsPacket p).1 with
          pulseCount := 0, startC := 1, sampleCounter := 0, pulseDistance := 0 },
        (demodNextBitsPacket p).2) := by
  simp [pwmDemodSample, risePhase, fallPhase, countPhase, classifyPhase, silencePhase, hs, hpd,
    not_lt.mpr hs.le, not_lt.mpr hsep, not_lt.mpr (hsl.trans hsep), not_lt.mpr hr]
  simp only [demodNextBitsPacket]
  split_ifs <;> simp

/-- **A pulse.** Samples above the level, outside a gap, that keep the counter within
`reset_limit`: the instance is inside a pulse, counting, with nothing printed. -/
theorem pwmDemod_pulse (xs : List Int) (hxs : ∀ x ∈ xs, levelLimit < x) (hne : xs ≠ [])
    (hpd : p.pulseDistance = 0) (hc : p.sampleCounter + xs.length ≤ p.resetLimit) :
    pwmDemod levelLimit p xs =
      ({ p with pulseCount := 1, startC := 1, sampleCounter := p.sampleCounter + xs.length }, []) := by
  induction xs generalizing p with
  | nil => exact absurd rfl hne
  | cons x xs ih =>
    simp only [List.length_cons, Nat.cast_succ] at hc
    simp only [pwmDemod, pwmDemodSample_high (hxs x (List.mem_cons_self x xs)) hpd (by omega)]
    cases xs with
    | nil => simp [pwmDemod]
    | cons y ys =>
      set q : ProtocolState := { p with pulseCount := 1, startC := 1, sampleCounter := p.sampleCounter + 1 }
      have hq : q.sampleCounter + (y :: ys).length ≤ q.resetLimit := by
        simp only [q, List.length_cons, Nat.cast_succ] at hc ⊢; omega
      rw [ih (p := q) (fun z hz => hxs z (List.mem_cons_of_mem x hz)) (List.cons_ne_nil y ys) hpd hq]
      simp only [q, List.nil_append, List.length_cons, Nat.cast_succ]
      congr 2; ring

/-- **A counted gap.** Samples below the level after a falling edge, while the counter
stays within `reset_limit`: the counter runs, nothing else changes. -/
theorem pwmDemod_gap (xs : List Int) (hxs : ∀ x ∈ xs, x < levelLimit) (hpc : p.pulseCount = 0)
    (hst : p.startC = 1) (hc : p.sampleCounter + xs.length ≤ p.resetLimit) :
    pwmDemod levelLimit p xs = ({ p with sampleCounter := p.sampleCounter + xs.length }, []) := by
  induction xs generalizing p with
  | nil => simp [pwmDemod]
  | cons x xs ih =>
    simp only [List.length_cons, Nat.cast_succ] at hc
    simp only [pwmDemod, pwmDemodSample_low (hxs x (List.mem_cons_self x xs)) hpc hst (by omega)]
    set q : ProtocolState := { p with sampleCounter := p.sampleCounter + 1 }
    have hq : q.sampleCounter + xs.length ≤ q.resetLimit := by simp only [q]; omega
    rw [ih (p := q) (fun z hz => hxs z (List.mem_cons_of_mem x hz)) hpc hst hq]
    simp only [q]
    simp only [List.nil_append, List.length_cons, Nat.cast_succ]
    congr 2; ring

/-- **An idle gap.** Samples below the level while nothing is counting change nothing. -/
theorem pwmDemod_idle (xs : List Int) (hxs : ∀ x ∈ xs, x < levelLimit) (hpc : p.pulseCount = 0)
    (hst : p.startC = 0) (hc : p.sampleCounter ≤ p.resetLimit) : pwmDemod levelLimit p xs = (p, []) := by
  induction xs with
  | nil => rfl
  | cons x xs ih =>
    simp [pwmDemod, pwmDemodSample_low_idle (hxs x (List.mem_cons_self x xs)) hpc hst hc,
      ih fun z hz => hxs z (List.mem_cons_of_mem x hz)]

/-- **A gap.** A falling edge after a counted pulse and the samples below the level
that follow it: the gap opens, and its counter runs to the gap's length. -/
theorem pwmDemod_fallGap (xs : List Int) (hxs : ∀ x ∈ xs, x < levelLimit) (hne : xs ≠ [])
    (hpc : p.pulseCount = 1) (hst : p.startC = 1) (hc : (xs.length : Int) ≤ p.resetLimit) :
    pwmDemod levelLimit p xs =
      ({ p with
          pulseLength := 0, pulseDistance := 1, pulseCount := 0, sampleCounter := xs.length }, []) := by
  obtain ⟨x, xs, rfl⟩ := List.exists_cons_of_ne_nil hne
  simp only [List.length_cons, Nat.cast_succ] at hc
  rw [← List.singleton_append, pwmDemod_append, pwmDemod_singleton,
    pwmDemodSample_fall (hxs x (List.mem_cons_self x xs)) hpc hst (by omega),
    pwmDemod_gap xs (fun z hz => hxs z (List.mem_cons_of_mem x hz)) rfl (by exact hst)
      (by dsimp only; omega)]
  simp only [List.nil_append, List.singleton_append, List.length_cons]
  congr 2; omega

/-- **A bit.** The pulse that ends a gap whose counter lies in the band of bit `b`: the
bit is appended and the pulse is counted on. -/
theorem pwmDemod_bitPulse (b : Bool) (xs : List Int) (hxs : ∀ x ∈ xs, levelLimit < x)
    (hlen : 2 ≤ xs.length) (hpd : p.pulseDistance = 1)
    (hband : GapBit p.shortLimit p.longLimit (p.sampleCounter + 1) b)
    (hc : p.sampleCounter + xs.length ≤ p.resetLimit) :
    pwmDemod levelLimit p xs =
      ({ (demodAddBit { p with pulseCount := 1, startC := 1, sampleCounter := p.sampleCounter + 1 }
          (if b then 1 else 0)).1 with
          pulseDistance := 0, pulseCount := 1, startC := 1,
          sampleCounter := p.sampleCounter + xs.length },
        (demodAddBit { p with pulseCount := 1, startC := 1, sampleCounter := p.sampleCounter + 1 }
          (if b then 1 else 0)).2) := by
  obtain ⟨x, xs, rfl⟩ := List.exists_cons_of_ne_nil (List.ne_nil_of_length_pos (by omega) : xs ≠ [])
  simp only [List.length_cons, Nat.cast_succ] at hc hlen
  rw [← List.singleton_append, pwmDemod_append, pwmDemod_singleton,
    pwmDemodSample_bit b (hxs x (List.mem_cons_self x xs)) hpd hband (by omega),
    pwmDemod_pulse xs (fun z hz => hxs z (List.mem_cons_of_mem x hz))
      (List.ne_nil_of_length_pos (by omega)) rfl (by simp; omega)]
  simp only [demodAddBit_sampleCounter, List.append_nil, List.singleton_append, List.length_cons]
  congr 2; omega

/-- **A row advance.** The pulse that ends a gap of at least `long_limit` counted
samples: the next row starts, and the pulse is counted from 0. -/
theorem pwmDemod_separatorPulse (xs : List Int) (hxs : ∀ x ∈ xs, levelLimit < x)
    (hlen : 2 ≤ xs.length) (hpd : p.pulseDistance = 1) (hsep : p.longLimit ≤ p.sampleCounter + 1)
    (hsl : p.shortLimit ≤ p.longLimit) (hc : (xs.length : Int) ≤ p.resetLimit + 1) :
    pwmDemod levelLimit p xs =
      ({ (demodNextBitsPacket p).1 with
          pulseCount := 1, startC := 1, sampleCounter := xs.length - 1, pulseDistance := 0 },
        (demodNextBitsPacket p).2) := by
  obtain ⟨x, xs, rfl⟩ := List.exists_cons_of_ne_nil (List.ne_nil_of_length_pos (by omega) : xs ≠ [])
  simp only [List.length_cons, Nat.cast_succ] at hc hlen
  rw [← List.singleton_append, pwmDemod_append, pwmDemod_singleton,
    pwmDemodSample_separator (hxs x (List.mem_cons_self x xs)) hpd hsep hsl (by omega),
    pwmDemod_pulse xs (fun z hz => hxs z (List.mem_cons_of_mem x hz))
      (List.ne_nil_of_length_pos (by omega)) rfl (by simp; omega)]
  simp only [List.append_nil, List.singleton_append, List.length_cons]
  congr 2; omega

/-- A stream cut before and after its sample `n`. -/
theorem eq_take_append_getD (xs : List Int) {n : Nat} (hn : n < xs.length) :
    xs = xs.take n ++ ([xs.getD n 0] ++ xs.drop (n + 1)) := by
  rw [List.singleton_append, List.getD_eq_getElem _ _ hn, List.getElem_cons_drop, List.take_append_drop]

/-- **A silence.** A falling edge after a counted pulse and more than `reset_limit`
samples below the level: exactly one packet is printed, the matrix as it stood, and the
instance is left idle with the matrix cleared. -/
theorem pwmDemod_fallSilence_eq (xs : List Int) (hxs : ∀ x ∈ xs, x < levelLimit)
    (hpc : p.pulseCount = 1) (hst : p.startC = 1) (hr : 1 ≤ p.resetLimit)
    (hlen : p.resetLimit < xs.length) :
    pwmDemod levelLimit p xs =
      (demodResetBitsPacket { p with
          pulseLength := 0, pulseDistance := 0, pulseCount := 0, sampleCounter := 0, startC := 0 },
        [.printBitsPacket (bitsSnapshot p.bitsBuffer)]) := by
  obtain ⟨n, hn⟩ : ∃ n : Nat, p.resetLimit = n := ⟨p.resetLimit.toNat, by omega⟩
  have hsplit := eq_take_append_getD xs (show n < xs.length by omega)
  have hmem : ∀ ys, ys ⊆ xs → ∀ y ∈ ys, y < levelLimit := fun ys h y hy => hxs y (h hy)
  have htake : (xs.take n).length = n := List.length_take_of_le (by omega)
  have hy : xs.getD n 0 ∈ xs := by
    rw [List.getD_eq_getElem _ _ (by omega)]; exact List.getElem_mem _
  rw [hsplit, pwmDemod_append, pwmDemod_append,
    pwmDemod_fallGap _ (hmem _ (List.take_subset n xs)) (List.ne_nil_of_length_pos (by omega))
      hpc hst (by omega), pwmDemod_singleton,
    pwmDemodSample_low_silence (hxs _ hy) rfl (by exact hst) (by simp [htake, hn]),
    pwmDemod_idle _ (hmem _ (List.drop_subset _ xs)) rfl rfl (by simp [demodResetBitsPacket]; omega)]
  simp

theorem pwmDemod_fallSilence (xs : List Int) (hxs : ∀ x ∈ xs, x < levelLimit) (hpc : p.pulseCount = 1)
    (hst : p.startC = 1) (hr : 1 ≤ p.resetLimit) (hlen : p.resetLimit < xs.length) :
    printedPackets (pwmDemod levelLimit p xs).2 = [bitsSnapshot p.bitsBuffer] := by
  rw [pwmDemod_fallSilence_eq xs hxs hpc hst hr hlen]
  rfl

/-- A pulse sample from an idle state with `reset_limit = n`, then `n + 1` samples below
the level: the gap counts up to `n`, and the last sample counts to `n + 1` before the
silence test. -/
theorem counterFits_pulse_gap {hi lo : Int} (hhi : levelLimit < hi) (hlo : lo < levelLimit)
    (hpd : p.pulseDistance = 0) (hsc : p.sampleCounter = 0) {n : Nat} (hn : p.resetLimit = n)
    (h1 : 1 ≤ n) (h : CounterFits levelLimit p (hi :: List.replicate (n + 1) lo)) :
    FitsInt32 (n + 1) := by
  rw [List.replicate_succ', ← List.cons_append, counterFits_append, ← List.singleton_append,
    pwmDemod_append, pwmDemod_pulse [hi] (by simpa using hhi) (by simp) hpd (by simp [hsc, hn]; omega),
    pwmDemod_fallGap _ (fun x hx => (List.eq_of_mem_replicate hx) ▸ hlo)
      (List.ne_nil_of_length_pos (by simp; omega)) rfl rfl (by simp [hn])] at h
  simpa [CounterFits, countPhase, fallPhase, risePhase, not_lt.2 hlo.le] using h.2.1

end Runs

/-- **At `reset_limit = INT_MAX` the counter overflows.** With the Rubicson limits but
`reset_limit = 2^31 - 1`, a sample above the level 0 and then `2^31` samples below it:
after `2^31 - 1` of them the counter stands at `INT_MAX` with `start_c` set, and the
next `sample_counter++` leaves `int` before the silence test can fire. -/
theorem pwmDemod_counter_overflows_intMax :
    ¬ CounterFits 0 (.init 1744 3500 (2 ^ 31 - 1)) (1 :: List.replicate (2 ^ 31) (-1)) := fun h =>
  absurd (counterFits_pulse_gap (n := 2 ^ 31 - 1) (by norm_num) (by norm_num) rfl rfl rfl
    (by norm_num) h) (by norm_num [FitsInt32])

/-! ## The frozen counter

The silence statement clears `start_c` but not `pulse_count`, which the row-advance
branch clears beside `sample_counter`. When the silence fires inside a pulse — a carrier
longer than `reset_limit` — the falling edge that follows still sees `pulse_count = 1`
and opens a gap, but with `start_c = 0` nothing counts it: the counter stays 0 for the
whole gap, and the next pulse classifies the gap as a 0 bit whatever its length. -/

/-- A carrier of `reset_limit + 1` samples at `hi`, then `m` samples at `lo`, then one
sample at `hi`. -/
def carrierThenGap (resetLimit hi lo : Int) (m : Nat) : List Int :=
  List.replicate (resetLimit.toNat + 1) hi ++ List.replicate m lo ++ [hi]

/-- **A gap after a long carrier is timed from a frozen counter.** For every instance
with `1 ≤ reset_limit` and `short_limit > 1`, and every gap length `m ≥ 1` — also one far
beyond `reset_limit` — the pulse after the gap compares `sample_counter = 1` and appends
a bit: the bit cursor has moved from 7 to 6. -/
theorem pwmDemod_carrier_freezes_counter (shortLimit longLimit resetLimit levelLimit hi lo : Int)
    (m : Nat) (hr : 1 ≤ resetLimit) (hs : 1 < shortLimit) (hhi : levelLimit < hi)
    (hlo : lo < levelLimit) (hm : 0 < m) :
    (pwmDemod levelLimit (.init shortLimit longLimit resetLimit)
        (carrierThenGap resetLimit hi lo m)).1.bitsBitColIdx = 6 ∧
      (pwmDemod levelLimit (.init shortLimit longLimit resetLimit)
        (carrierThenGap resetLimit hi lo m)).1.sampleCounter = 1 := by
  obtain ⟨k, hk⟩ : ∃ k : Nat, resetLimit.toNat = k + 1 := ⟨resetLimit.toNat - 1, by omega⟩
  obtain ⟨n, rfl⟩ : ∃ n, m = n + 1 := ⟨m - 1, by omega⟩
  have hstream : carrierThenGap resetLimit hi lo (n + 1) =
      List.replicate (k + 1) hi ++ ([hi] ++ ([lo] ++ (List.replicate n lo ++ [hi]))) := by
    rw [carrierThenGap, hk, List.replicate_succ' (n := k + 1)]
    simp [List.replicate_succ]
  -- the carrier up to `reset_limit` samples
  obtain ⟨P₁, hP₁, h₁⟩ : ∃ P₁, (pwmDemod levelLimit (.init shortLimit longLimit resetLimit)
      (List.replicate (k + 1) hi)).1 = P₁ ∧ P₁.pulseDistance = 0 ∧
      P₁.sampleCounter = P₁.resetLimit ∧ P₁.resetLimit = resetLimit ∧ P₁.shortLimit = shortLimit := by
    refine ⟨_, rfl, ?_⟩
    rw [pwmDemod_pulse _ (by simp [hhi]) (by simp) (by simp [ProtocolState.init, demodResetBitsPacket])
      (by simp [ProtocolState.init, demodResetBitsPacket]; omega)]
    simp [ProtocolState.init, demodResetBitsPacket]; omega
  -- one carrier sample more: printed and cleared, `pulse_count` left at 1
  obtain ⟨P₂, hP₂, h₂⟩ : ∃ P₂, (pwmDemod levelLimit P₁ [hi]).1 = P₂ ∧ P₂.pulseCount = 1 ∧
      P₂.startC = 0 ∧ P₂.sampleCounter = 0 ∧ P₂.resetLimit = resetLimit ∧
      P₂.shortLimit = shortLimit ∧ P₂.bitsBitColIdx = 7 := by
    refine ⟨_, rfl, ?_⟩
    rw [pwmDemod_singleton, pwmDemodSample_high_silence hhi h₁.1 h₁.2.1]
    simp [demodResetBitsPacket, h₁]
  -- the falling edge opens a gap that nothing counts
  obtain ⟨P₃, hP₃, h₃⟩ : ∃ P₃, (pwmDemod levelLimit P₂ [lo]).1 = P₃ ∧ P₃.pulseCount = 0 ∧
      P₃.startC = 0 ∧ P₃.sampleCounter = 0 ∧ P₃.pulseDistance = 1 ∧ P₃.resetLimit = resetLimit ∧
      P₃.shortLimit = shortLimit ∧ P₃.bitsBitColIdx = 7 := by
    refine ⟨_, rfl, ?_⟩
    rw [pwmDemod_singleton, pwmDemodSample_fall_frozen hlo h₂.1 h₂.2.1 (by omega)]
    simp [h₂]
  have h₄ : (pwmDemod levelLimit P₃ (List.replicate n lo)).1 = P₃ := by
    rw [pwmDemod_idle _ (by simp [hlo]) h₃.1 h₃.2.1 (by omega)]
  -- the next pulse compares `sample_counter = 1`
  have h₅ := pwmDemodSample_bit false hhi h₃.2.2.2.1
    (by simp [GapBit, h₃, hs]) (by omega)
  rw [hstream, pwmDemod_append_fst, hP₁, pwmDemod_append_fst, hP₂, pwmDemod_append_fst, hP₃,
    pwmDemod_append_fst, h₄, pwmDemod_singleton, h₅]
  simp [demodAddBit_fst, h₃]

/-- The Rubicson instance after 5001 carrier samples and a gap of 6000 samples, longer
than its `reset_limit` of 5000, appends a bit. -/
theorem rubicson_carrier_gap_appends_bit :
    (1 ≤ (5000 : Int) ∧ 1 < (1744 : Int) ∧ (10000 : Int) < 20000 ∧ (0 : Int) < 10000 ∧ 0 < 6000) ∧
      (pwmDemod 10000 (.init 1744 3500 5000) (carrierThenGap 5000 20000 0 6000)).1.bitsBitColIdx = 6 ∧
      (pwmDemod 10000 (.init 1744 3500 5000) (carrierThenGap 5000 20000 0 6000)).1.sampleCounter = 1 :=
  ⟨by decide, pwmDemod_carrier_freezes_counter 1744 3500 5000 10000 20000 0 6000
    (by decide) (by decide) (by decide) (by decide) (by decide)⟩

end Rtl433
