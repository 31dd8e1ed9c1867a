import Rtl433.Silence
import Rtl433.Sensor

/-!
# Rtl433 — recovering from noise

What a protocol instance is left in after arbitrary samples and a silence longer than
`reset_limit`, and what it then makes of a transmission.

* **`ProtocolState.IdleCleared`** — whenever the instance is not counting, the matrix and
  the counter are cleared: `start_c` is cleared only by the silence statement, which
  clears both, and only a pulse sample, which sets `start_c` again, leads to a write of
  the matrix. `idleCleared_pwmDemodSample` is the step lemma and
  `idleCleared_of_reachable` the run lemma, which also keeps the limits;
* **`pwmDemod_resync`** — after a silence every reachable instance with
  `reset_limit < INT_MAX` waits for the next transmission (`Ready`), unless it was
  `Uncounted`: not counting with a pulse under way or a gap open. That happens when a silence fired inside a pulse that ended at once
  (see `pwmDemod_carrier_freezes_counter`); the instance is then `Frozen`, waiting
  with `pulse_distance` set;
* **`pwmDemodCalls_frozen_transmission`** — a frozen instance reads the first pulse of
  the next transmission as the end of a gap of one sample, a 0 bit: the packet is
  printed with a 0 in front of its first row, and the instance waits again.
-/

namespace Rtl433

/-! ## What the statements leave alone -/

/-- The three limits of an instance, which no statement of `pwm_demod` writes. -/
def ProtocolState.limits (p : ProtocolState) : Int × Int × Int :=
  (p.shortLimit, p.longLimit, p.resetLimit)

section Phases

variable {levelLimit s : Int} {p : ProtocolState}

@[simp] theorem limits_risePhase : (risePhase levelLimit s p).limits = p.limits := by
  unfold risePhase; split <;> rfl

@[simp] theorem limits_fallPhase : (fallPhase levelLimit s p).limits = p.limits := by
  unfold fallPhase; split <;> rfl

@[simp] theorem limits_countPhase : (countPhase p).limits = p.limits := by
  unfold countPhase; split <;> rfl

@[simp] theorem limits_classifyPhase : (classifyPhase levelLimit s p).1.limits = p.limits := by
  unfold classifyPhase; split
  · dsimp only; split_ifs <;> simp [ProtocolState.limits]
  · rfl

@[simp] theorem limits_silencePhase : (silencePhase p).1.limits = p.limits := by
  unfold silencePhase; split <;> rfl

theorem limits_pwmDemodSample : (pwmDemodSample levelLimit p s).1.limits = p.limits := by
  simp only [pwmDemodSample, limits_silencePhase, limits_classifyPhase, limits_countPhase,
    limits_fallPhase, limits_risePhase]

theorem startC_fallPhase : (fallPhase levelLimit s p).startC = p.startC := by
  unfold fallPhase; split <;> rfl

theorem startC_countPhase : (countPhase p).startC = p.startC := by
  unfold countPhase; split <;> rfl

theorem startC_classifyPhase : (classifyPhase levelLimit s p).1.startC = p.startC := by
  unfold classifyPhase; split
  · dsimp only; split_ifs <;> simp
  · rfl

/-- A sample not above the level while nothing counts: of the four statements before
the silence test only the falling edge can act. -/
theorem classifyPhase_not_counting (hs : ¬ levelLimit < s) (hst : p.startC = 0) :
    classifyPhase levelLimit s (countPhase (fallPhase levelLimit s (risePhase levelLimit s p))) =
      (fallPhase levelLimit s p, []) := by
  have hr : risePhase levelLimit s p = p := by simp [risePhase, hs]
  have hc : countPhase (fallPhase levelLimit s p) = fallPhase levelLimit s p := by
    simp [countPhase, startC_fallPhase, hst]
  rw [hr, hc]
  simp [classifyPhase, hs]

end Phases

/-! ## Not counting means cleared -/

/-- Whenever the instance is not counting, the matrix and the counter are cleared, and
no pulse is under way while a gap is open. -/
def ProtocolState.IdleCleared (p : ProtocolState) : Prop :=
  p.startC = 0 → (∃ q, p = demodResetBitsPacket q) ∧ p.sampleCounter = 0 ∧
    (p.pulseCount = 0 ∨ p.pulseDistance = 0)

section Idle

variable {levelLimit s : Int} {p : ProtocolState}

theorem idleCleared_fallPhase (h : p.IdleCleared) : (fallPhase levelLimit s p).IdleCleared := by
  unfold fallPhase; split
  · intro hst
    obtain ⟨⟨q, rfl⟩, -, -⟩ := h hst
    exact ⟨⟨{ q with pulseLength := 0, pulseDistance := 1, sampleCounter := 0, pulseCount := 0 },
      rfl⟩, rfl, .inl rfl⟩
  · exact h

theorem idleCleared_silencePhase (h : p.IdleCleared) : (silencePhase p).1.IdleCleared := by
  unfold silencePhase; split
  · exact fun _ => ⟨⟨_, rfl⟩, rfl, .inr rfl⟩
  · exact h

/-- **The step lemma.** A pulse sample sets `start_c`, so only the silence statement can
clear it in the same iteration, and that clears the matrix; any other sample while
nothing counts is at most a falling edge. -/
theorem idleCleared_pwmDemodSample (h : p.IdleCleared) (levelLimit s : Int) :
    (pwmDemodSample levelLimit p s).1.IdleCleared := by
  simp only [pwmDemodSample]
  apply idleCleared_silencePhase
  by_cases hs : levelLimit < s
  · intro hst
    rw [startC_classifyPhase, startC_countPhase, startC_fallPhase] at hst
    simp [risePhase, hs] at hst
  · by_cases hst : p.startC = 0
    · rw [classifyPhase_not_counting hs hst]
      exact idleCleared_fallPhase h
    · intro hst'
      rw [startC_classifyPhase, startC_countPhase, startC_fallPhase,
        show risePhase levelLimit s p = p by simp [risePhase, hs]] at hst'
      exact absurd hst' hst

/-- **The run lemma.** Every state reachable from an initialisation is cleared whenever
it is not counting, and keeps the limits it was given. -/
theorem idleCleared_of_reachable {shortLimit longLimit resetLimit : Int}
    (hp : Reachable levelLimit (.init shortLimit longLimit resetLimit) p) :
    p.IdleCleared ∧ p.limits = (shortLimit, longLimit, resetLimit) := by
  induction hp with
  | init => exact ⟨fun _ => ⟨⟨_, rfl⟩, rfl, .inl rfl⟩, rfl⟩
  | sample s _ ih =>
    exact ⟨idleCleared_pwmDemodSample ih.1 levelLimit s, limits_pwmDemodSample.trans ih.2⟩

end Idle

/-! ## After a silence -/

/-- An instance stuck before a gap nothing counts: cleared, not counting and its counter
at 0 as when waiting, but with `pulse_distance` set, so the next pulse closes a gap. -/
def ProtocolState.Frozen (shortLimit longLimit resetLimit : Int) (p : ProtocolState) : Prop :=
  ∃ q, p = demodResetBitsPacket q ∧ q.pulseCount = 0 ∧ q.pulseDistance = 1 ∧
    q.startC = 0 ∧ q.sampleCounter = 0 ∧ q.shortLimit = shortLimit ∧
    q.longLimit = longLimit ∧ q.resetLimit = resetLimit

/-- Not counting, with a pulse under way or a gap open: no silence can fire any more,
and the gap is never counted. -/
def ProtocolState.Uncounted (p : ProtocolState) : Prop :=
  p.startC = 0 ∧ (p.pulseCount = 1 ∨ p.pulseDistance = 1)

/-- **Recovering from noise.** For every instance with `1 ≤ reset_limit < INT_MAX` and
every state reachable from the one `main` builds, after any samples in any calls, more
than `reset_limit` samples below the level leave it waiting for a transmission, cleared
and idle, unless it was not counting with a pulse under way or a gap open: then it is
left frozen, waiting with `pulse_distance` set. No `sample_counter++` on the way leaves
`int`. -/
theorem pwmDemod_resync (shortLimit longLimit resetLimit levelLimit : Int) (hreset : 1 ≤ resetLimit)
    (hmax : resetLimit < 2 ^ 31 - 1)
    (p : ProtocolState) (hp : Reachable levelLimit (.init shortLimit longLimit resetLimit) p)
    (silence : List Int) (hsil : ∀ x ∈ silence, x < levelLimit) (hlen : resetLimit < silence.length) :
    ((pwmDemod levelLimit p silence).1.Ready shortLimit longLimit resetLimit ∧ ¬ p.Uncounted ∨
      (pwmDemod levelLimit p silence).1.Frozen shortLimit longLimit resetLimit ∧ p.Uncounted) ∧
      CounterFits levelLimit p silence := by
  obtain ⟨hinv, hr⟩ := inv_of_reachable (by omega) hp
  refine ⟨?_, counterFits_of_inv (by omega) (by omega) hinv levelLimit silence⟩
  obtain ⟨-, ⟨hpc, hpd, hst⟩, h0, hc⟩ := hinv
  obtain ⟨hidle, hlim⟩ := idleCleared_of_reachable hp
  simp only [ProtocolState.limits, Prod.mk.injEq] at hlim
  obtain ⟨hs, hl, -⟩ := hlim
  rcases hst with hst | hst
  · -- not counting: the matrix is clear, and a falling edge, if any, opens a gap
    obtain ⟨⟨q, rfl⟩, hsc, hpcd⟩ := hidle hst
    rcases hpc with hpc | hpc
    · rw [pwmDemod_idle _ hsil hpc hst (by omega)]
      rcases hpd with hpd | hpd
      · exact .inl ⟨⟨q, rfl, hpc, hpd, hst, hsc, hs, hl, hr⟩,
          fun ⟨_, h⟩ => by rcases h with h | h <;> simp_all⟩
      · exact .inr ⟨⟨q, rfl, hpc, hpd, hst, hsc, hs, hl, hr⟩, hst, .inr hpd⟩
    · obtain ⟨x, xs, rfl⟩ :=
        List.exists_cons_of_ne_nil (List.ne_nil_of_length_pos (show 0 < silence.length by omega))
      rw [← List.singleton_append, pwmDemod_append, pwmDemod_singleton,
        pwmDemodSample_fall_frozen (hsil x (List.mem_cons_self x xs)) hpc hst (by omega),
        pwmDemod_idle _ (fun z hz => hsil z (List.mem_cons_of_mem x hz)) rfl (by exact hst)
          (by dsimp only; omega)]
      exact .inr ⟨⟨{ q with pulseLength := 0, pulseDistance := 1, sampleCounter := 0, pulseCount := 0 },
        rfl, rfl, rfl, hst, rfl, hs, hl, hr⟩, hst, .inl hpc⟩
  · -- counting: the silence statement fires and clears everything
    refine .inl ⟨?_, fun h => by rw [h.1] at hst; exact absurd hst (by decide)⟩
    rcases hpc with hpc | hpc
    · rw [pwmDemod_countedSilence_eq silence hsil hpc hst h0 (by omega) (by omega)]
      exact ⟨_, rfl, hpc, rfl, rfl, rfl, hs, hl, hr⟩
    · rw [pwmDemod_fallSilence_eq silence hsil hpc hst (by omega) (by omega)]
      exact ⟨_, rfl, rfl, rfl, rfl, rfl, hs, hl, hr⟩

/-- The Rubicson instance after a two-sample pulse, then 5001 samples below the level. -/
theorem rubicson_pulse_resync :
    ((pwmDemod 10000 (pwmDemod 10000 rubicsonInit [20000, 20000]).1 (List.replicate 5001 0)).1.Ready
        1744 3500 5000 ∧ ¬ (pwmDemod 10000 rubicsonInit [20000, 20000]).1.Uncounted ∨
      (pwmDemod 10000 (pwmDemod 10000 rubicsonInit [20000, 20000]).1
        (List.replicate 5001 0)).1.Frozen 1744 3500 5000 ∧
        (pwmDemod 10000 rubicsonInit [20000, 20000]).1.Uncounted) ∧
      CounterFits 10000 (pwmDemod 10000 rubicsonInit [20000, 20000]).1 (List.replicate 5001 0) :=
  pwmDemod_resync 1744 3500 5000 10000 (by decide) (by decide) _ (reachable_pwmDemod .init _) _
    (fun _ hx => (List.eq_of_mem_replicate hx) ▸ by decide)
    (by rw [List.length_replicate]; decide)

/-! ## A transmission to a frozen instance -/

section Frozen

variable {levelLimit shortLimit longLimit resetLimit : Int} {p : ProtocolState}

/-- **The first pulse, frozen.** It closes the gap left open with the counter at 1, below
`short_limit`: a 0 bit is the first of the first row. -/
theorem afterPulse_frozenStart (hp : p.Frozen shortLimit longLimit resetLimit)
    (hs1 : 1 < shortLimit) {pulse : List Int} (hw : FirstPulse levelLimit resetLimit pulse) :
    AfterPulse shortLimit longLimit resetLimit (pwmDemod levelLimit p pulse).1 [] [false] ∧
      printedPackets (pwmDemod levelLimit p pulse).2 = [] := by
  obtain ⟨q, rfl, hpc, hpd, hst, hsc, hs, hl, hr⟩ := hp
  obtain ⟨hxs, hlen, hwr⟩ := hw
  rw [pwmDemod_bitPulse (p := demodResetBitsPacket q) false pulse hxs hlen hpd
    (by simp [GapBit, demodResetBitsPacket, hsc, hs, hs1])
    (by simp [demodResetBitsPacket, hsc, hr, hwr])]
  refine ⟨⟨by simp [demodResetBitsPacket, hs, hl, hr], by simp, ?_, ?_⟩, by simp⟩
  · simpa using @demodAddBit_packs _ [] [] packs_cleared ⟨rfl, rfl, rfl⟩
      (by decide) false
  · exact @cursorAt_demodAddBit _ 0 0 ⟨rfl, rfl, rfl⟩ _

/-- **A frozen instance shifts the next packet.** For a frozen instance with
`1 < short_limit ≤ long_limit` and `reset_limit < INT_MAX`, a packet of at most 12 rows
closed by more than `reset_limit` samples below the level, its rows of at most 40 bits
once a 0 is put in front of the first, makes `pwm_demod` print exactly one packet,
however the stream is split into calls: the rows with a 0 bit in front of the first. The
instance then waits for the next transmission, and no `sample_counter++` of the run
leaves `int`. -/
theorem pwmDemodCalls_frozen_transmission (levelLimit : Int) (p : ProtocolState)
    (hp : p.Frozen shortLimit longLimit resetLimit) (hs1 : 1 < shortLimit)
    (hsl : shortLimit ≤ longLimit) (hmax : resetLimit < 2 ^ 31 - 1)
    (rows : List (List Bool)) (xs silence : List Int)
    (hw : PacketWave levelLimit shortLimit longLimit resetLimit rows xs) (hk : rows.length ≤ 12)
    (hbits : ∀ row ∈ prependFirst [false] rows, row.length ≤ 40)
    (hsil : IsGap levelLimit silence) (hlen : resetLimit < silence.length)
    (calls : List (List Int)) (hcalls : calls.flatten = xs ++ silence) :
    printedPackets (pwmDemodCalls levelLimit p calls).2 = [packRows (prependFirst [false] rows)] ∧
      (pwmDemodCalls levelLimit p calls).1.Ready shortLimit longLimit resetLimit ∧
      CounterFits levelLimit p calls.flatten := by
  have hr2 := hw.two_le_reset
  have hfits : CounterFits levelLimit p calls.flatten := by
    obtain ⟨q, rfl, hpc, hpd, hst, hsc, -, -, hr⟩ := hp
    exact counterFits_of_inv (by simp [demodResetBitsPacket]; omega)
      (by simp [demodResetBitsPacket]; omega)
      (inv_demodResetBitsPacket (by omega) ⟨hpc, .inr hpd, hst⟩ hsc) _ _
  obtain ⟨done, cur, hdc, ⟨⟨hs, hl, hr⟩, ⟨hpc, hst, -⟩, hpk, -⟩, e⟩ :=
    afterPulse_packetWave_from (fun _ hw => afterPulse_frozenStart hp hs1 hw) hsl hw hk hbits
  rw [pwmDemodCalls_eq, hcalls, pwmDemod_append, printedPackets_append, e,
    pwmDemod_fallSilence_eq silence hsil hpc hst (by omega) (by omega), bitsSnapshot_of_packs hpk,
    hdc]
  exact ⟨rfl, ⟨_, rfl, rfl, rfl, rfl, rfl, hs, hl, hr⟩, hcalls ▸ hfits⟩

/-- The Rubicson instance frozen, then a one-bit row keyed as the source's comment gives:
the row is printed as `0 1`. -/
theorem rubicson_frozen_prints_zero_first :
    printedPackets (pwmDemodCalls 10000 (demodResetBitsPacket { rubicsonInit with pulseDistance := 1 })
        [rubicsonCommentKeying.packet [[true]] ++ List.replicate 5001 0]).2 =
        [packRows (prependFirst [false] [[true]])] ∧
      (pwmDemodCalls 10000 (demodResetBitsPacket { rubicsonInit with pulseDistance := 1 })
        [rubicsonCommentKeying.packet [[true]] ++ List.replicate 5001 0]).1.Ready 1744 3500 5000 ∧
      CounterFits 10000 (demodResetBitsPacket { rubicsonInit with pulseDistance := 1 })
        [rubicsonCommentKeying.packet [[true]] ++ List.replicate 5001 0].flatten :=
  pwmDemodCalls_frozen_transmission 10000 _ ⟨_, rfl, rfl, rfl, rfl, rfl, rfl, rfl, rfl⟩
    (by decide) (by decide) (by decide) [[true]] _ (List.replicate 5001 0)
    (rubicsonCommentKeying.packetWave_packet _ []) (by decide) (by decide)
    (isGap_replicate 10000 (by decide) _) (by rw [List.length_replicate]; decide) _
    (by simp only [List.flatten_cons, List.flatten_nil, List.append_nil])

end Frozen

end Rtl433
