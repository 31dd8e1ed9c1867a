import Rtl433.Demod

/-!
# Rtl433 — the silence statement of `pwm_demod`

`if (p->sample_counter > p->reset_limit)` is how an instance decides a transmission is
over: it prints the packet and clears it. Two properties of every reachable state:

* **`pwmDemod_silence_flushes`** — more than `reset_limit` samples below the level print
  once what has been decoded if the instance is counting, and nothing otherwise, with
  `reset_limit < INT_MAX` so that the counter stays an `int`;
* **`pwmDemod_window_prints_once`** — any `reset_limit + 1` consecutive samples print at
  most one packet.

Both rest on the counter: each statement of the loop leaves it, clears it or adds one
(`pwmDemodSample_counter`), so a print needs `reset_limit + 1` samples since the last
restart.
-/

namespace Rtl433

/-! ## The counter, statement by statement

`rise` leaves `sample_counter`, `fall` and a row advance clear it, `count` adds one, and
the silence statement clears it when it prints. -/

section Counter

variable (levelLimit s : Int) (p : ProtocolState)

theorem sampleCounter_risePhase : (risePhase levelLimit s p).sampleCounter = p.sampleCounter := by
  unfold risePhase; split <;> rfl

theorem sampleCounter_fallPhase :
    (fallPhase levelLimit s p).sampleCounter = 0 ∨
      (fallPhase levelLimit s p).sampleCounter = p.sampleCounter := by
  unfold fallPhase; split
  exacts [.inl rfl, .inr rfl]

theorem sampleCounter_countPhase :
    (countPhase p).sampleCounter = p.sampleCounter + 1 ∨
      (countPhase p).sampleCounter = p.sampleCounter := by
  unfold countPhase; split
  exacts [.inl rfl, .inr rfl]

theorem sampleCounter_classifyPhase :
    (classifyPhase levelLimit s p).1.sampleCounter = 0 ∨
      (classifyPhase levelLimit s p).1.sampleCounter = p.sampleCounter := by
  unfold classifyPhase; split
  · dsimp only; split
    · exact .inr (by simp)
    · split
      · exact .inr (by simp)
      · exact .inl rfl
  · exact .inr rfl

theorem printedPackets_classifyPhase : printedPackets (classifyPhase levelLimit s p).2 = [] := by
  unfold classifyPhase; split
  · dsimp only; split
    · simp
    · split <;> simp
  · rfl

variable {p}

/-- The counter the silence statement reads is at most one past the counter before the
sample, and never negative. -/
theorem counted_mem (h0 : 0 ≤ p.sampleCounter) :
    let q :=
      (classifyPhase levelLimit s
        (countPhase (fallPhase levelLimit s (risePhase levelLimit s p)))).1
    0 ≤ q.sampleCounter ∧ q.sampleCounter ≤ p.sampleCounter + 1 := by
  have h₁ := sampleCounter_risePhase levelLimit s p
  rcases sampleCounter_fallPhase levelLimit s (risePhase levelLimit s p) with h₂ | h₂ <;>
  rcases sampleCounter_countPhase (fallPhase levelLimit s (risePhase levelLimit s p)) with
    h₃ | h₃ <;>
  rcases sampleCounter_classifyPhase levelLimit s
    (countPhase (fallPhase levelLimit s (risePhase levelLimit s p))) with h₄ | h₄ <;> omega

/-- **One sample.** The counter stays nonnegative and rises by at most one; a sample that
prints found it past `reset_limit`, prints one packet, and restarts it at 0. -/
theorem pwmDemodSample_counter (h0 : 0 ≤ p.sampleCounter) :
    0 ≤ (pwmDemodSample levelLimit p s).1.sampleCounter ∧
      (pwmDemodSample levelLimit p s).1.sampleCounter ≤ p.sampleCounter + 1 ∧
      (printedPackets (pwmDemodSample levelLimit p s).2 = [] ∧
          (pwmDemodSample levelLimit p s).1.sampleCounter ≤ p.resetLimit ∨
        p.resetLimit < p.sampleCounter + 1 ∧
          (pwmDemodSample levelLimit p s).1.sampleCounter = 0 ∧
          (printedPackets (pwmDemodSample levelLimit p s).2).length = 1) := by
  obtain ⟨hlo, hhi⟩ := counted_mem levelLimit s h0
  have hr : (classifyPhase levelLimit s
      (countPhase (fallPhase levelLimit s (risePhase levelLimit s p)))).1.resetLimit =
        p.resetLimit := by
    simp
  simp only [pwmDemodSample, silencePhase, printedPackets_append, printedPackets_classifyPhase]
  split
  · simp only [demodResetBitsPacket, printedPackets_print]
    exact ⟨le_rfl, by omega, .inr ⟨by omega, trivial, rfl⟩⟩
  · dsimp only
    exact ⟨hlo, hhi, .inl ⟨rfl, by omega⟩⟩

/-- Samples that cannot take the counter past `reset_limit` print nothing. -/
theorem pwmDemod_quiet (h0 : 0 ≤ p.sampleCounter) (ys : List Int)
    (hc : p.sampleCounter + ys.length ≤ p.resetLimit) :
    printedPackets (pwmDemod levelLimit p ys).2 = [] := by
  induction ys generalizing p with
  | nil => rfl
  | cons y ys ih =>
    obtain ⟨h₀, h₁, hp⟩ := pwmDemodSample_counter levelLimit y h0
    have hr : (pwmDemodSample levelLimit p y).1.resetLimit = p.resetLimit :=
      resetLimit_pwmDemodSample
    simp only [List.length_cons, Nat.cast_succ] at hc
    rcases hp with ⟨hp, -⟩ | ⟨hlt, -, -⟩
    · simp only [pwmDemod, printedPackets_append, hp, List.nil_append]
      exact ih h₀ (by omega)
    · omega

/-- **The run lemma.** By induction on the window: until its first print, a window follows
the counter; from that print on, the counter restarts at 0 and the rest of the window is
too short to take it past `reset_limit` again. -/
theorem pwmDemod_window (h0 : 0 ≤ p.sampleCounter) (ys : List Int)
    (hlen : ys.length ≤ p.resetLimit + 1) :
    (printedPackets (pwmDemod levelLimit p ys).2).length ≤ 1 := by
  induction ys generalizing p with
  | nil => simp [pwmDemod]
  | cons y ys ih =>
    obtain ⟨h₀, -, hp⟩ := pwmDemodSample_counter levelLimit y h0
    have hr : (pwmDemodSample levelLimit p y).1.resetLimit = p.resetLimit :=
      resetLimit_pwmDemodSample
    simp only [List.length_cons, Nat.cast_succ] at hlen
    rcases hp with ⟨hp, -⟩ | ⟨-, hz, hone⟩
    · simp only [pwmDemod, printedPackets_append, hp, List.nil_append]
      exact ih h₀ (by omega)
    · simp only [pwmDemod, printedPackets_append, List.length_append, hone,
        pwmDemod_quiet levelLimit h₀ ys (by omega), List.length_nil, le_refl]

end Counter

/-! ## A silence flushes the packet

Below the level, a counted gap runs into the silence statement; a gap that is not
counted (`start_c` cleared by an earlier silence) never does. -/

section Flush

variable {levelLimit : Int} {p : ProtocolState}

/-- **A counted gap into silence.** Counting after a pulse's end, samples below the level
take the counter past `reset_limit`: the packet as it stands is printed, once, and the
instance is left idle with the matrix cleared. -/
theorem pwmDemod_countedSilence_eq (xs : List Int) (hxs : ∀ x ∈ xs, x < levelLimit)
    (hpc : p.pulseCount = 0) (hst : p.startC = 1) (h0 : 0 ≤ p.sampleCounter)
    (hc : p.sampleCounter ≤ p.resetLimit) (hlen : p.resetLimit - p.sampleCounter < xs.length) :
    pwmDemod levelLimit p xs =
      (demodResetBitsPacket { p with startC := 0, sampleCounter := 0, pulseDistance := 0 },
        [.printBitsPacket (bitsSnapshot p.bitsBuffer)]) := by
  obtain ⟨n, hn⟩ : ∃ n : Nat, p.resetLimit - p.sampleCounter = n :=
    ⟨(p.resetLimit - p.sampleCounter).toNat, by omega⟩
  have hmem : ∀ ys, ys ⊆ xs → ∀ y ∈ ys, y < levelLimit := fun ys h y hy => hxs y (h hy)
  have htake : (xs.take n).length = n := List.length_take_of_le (by omega)
  have hy : xs.getD n 0 ∈ xs := by
    rw [List.getD_eq_getElem _ _ (by omega)]; exact List.getElem_mem _
  rw [eq_take_append_getD xs (show n < xs.length by omega), pwmDemod_append, pwmDemod_append,
    pwmDemod_gap _ (hmem _ (List.take_subset n xs)) hpc hst (by rw [htake]; omega),
    pwmDemod_singleton, pwmDemodSample_low_silence (hxs _ hy) (by exact hpc) (by exact hst)
      (by simp only [htake]; omega),
    pwmDemod_idle _ (hmem _ (List.drop_subset _ xs)) (by exact hpc) rfl
      (by simp [demodResetBitsPacket]; omega)]
  simp [demodResetBitsPacket]

theorem pwmDemod_countedSilence (xs : List Int) (hxs : ∀ x ∈ xs, x < levelLimit)
    (hpc : p.pulseCount = 0) (hst : p.startC = 1) (h0 : 0 ≤ p.sampleCounter)
    (hc : p.sampleCounter ≤ p.resetLimit) (hlen : p.resetLimit - p.sampleCounter < xs.length) :
    printedPackets (pwmDemod levelLimit p xs).2 = [bitsSnapshot p.bitsBuffer] := by
  rw [pwmDemod_countedSilence_eq xs hxs hpc hst h0 hc hlen]
  rfl

end Flush

/-! ## Every reachable state

Reachable states have `0 ≤ sample_counter ≤ reset_limit` and boolean flags
(`inv_of_reachable`), which is all the two theorems need of them; below `INT_MAX` the
same bound keeps every `sample_counter++` in `int` (`counterFits_of_inv`). -/

/-- **A silence flushes what was decoded.** For every instance with
`1 ≤ reset_limit < INT_MAX`, from every state reachable from the one `main` builds, more
than `reset_limit` samples below the level print exactly one packet, the matrix as it
stands, if the instance is counting (`start_c` set), and nothing otherwise; no
`sample_counter++` on the way leaves `int`. -/
theorem pwmDemod_silence_flushes (shortLimit longLimit resetLimit levelLimit : Int)
    (hreset : 1 ≤ resetLimit) (hmax : resetLimit < 2 ^ 31 - 1) (p : ProtocolState)
    (hp : Reachable levelLimit (.init shortLimit longLimit resetLimit) p) (silence : List Int)
    (hsil : ∀ x ∈ silence, x < levelLimit) (hlen : resetLimit < silence.length) :
    printedPackets (pwmDemod levelLimit p silence).2 =
        (if p.startC = 1 then [bitsSnapshot p.bitsBuffer] else []) ∧
      CounterFits levelLimit p silence := by
  obtain ⟨hinv, hr⟩ := inv_of_reachable (by omega) hp
  refine ⟨?_, counterFits_of_inv (by omega) (by omega) hinv levelLimit silence⟩
  obtain ⟨-, ⟨hpc, -, hst⟩, h0, hc⟩ := hinv
  rcases hst with hst | hst
  · -- not counting: a falling edge, if any, opens a gap nothing counts
    rw [if_neg (by omega)]
    rcases hpc with hpc | hpc
    · rw [pwmDemod_idle _ hsil hpc hst (by omega)]
      rfl
    · obtain ⟨x, xs, rfl⟩ :=
        List.exists_cons_of_ne_nil (List.ne_nil_of_length_pos (show 0 < silence.length by omega))
      rw [← List.singleton_append, pwmDemod_append, pwmDemod_singleton,
        pwmDemodSample_fall_frozen (hsil x (List.mem_cons_self x xs)) hpc hst (by omega),
        pwmDemod_idle _ (fun z hz => hsil z (List.mem_cons_of_mem x hz)) rfl (by exact hst)
          (by dsimp only; omega)]
      rfl
  · rw [if_pos hst]
    rcases hpc with hpc | hpc
    · exact pwmDemod_countedSilence silence hsil hpc hst h0 (by omega) (by omega)
    · exact pwmDemod_fallSilence silence hsil hpc hst (by omega) (by omega)

/-- The Rubicson instance after a two-sample pulse, then 5001 samples below the level. -/
theorem rubicson_pulse_flushed :
    printedPackets (pwmDemod 10000 (pwmDemod 10000 rubicsonInit [20000, 20000]).1
        (List.replicate 5001 0)).2 =
        (if (pwmDemod 10000 rubicsonInit [20000, 20000]).1.startC = 1 then
          [bitsSnapshot (pwmDemod 10000 rubicsonInit [20000, 20000]).1.bitsBuffer] else []) ∧
      CounterFits 10000 (pwmDemod 10000 rubicsonInit [20000, 20000]).1 (List.replicate 5001 0) :=
  pwmDemod_silence_flushes 1744 3500 5000 10000 (by decide) (by decide) _
    (reachable_pwmDemod .init _) _ (fun _ hx => (List.eq_of_mem_replicate hx) ▸ by decide)
    (by rw [List.length_replicate]; decide)

/-- **At most one packet per `reset_limit + 1` samples.** For every instance with
`reset_limit ≥ 0`, from every reachable state, any `reset_limit + 1` consecutive samples
print at most one packet: a print restarts the counter at 0, and each sample advances it
by at most one. -/
theorem pwmDemod_window_prints_once (shortLimit longLimit resetLimit levelLimit : Int)
    (hreset : 0 ≤ resetLimit) (p : ProtocolState)
    (hp : Reachable levelLimit (.init shortLimit longLimit resetLimit) p) (window : List Int)
    (hlen : window.length ≤ resetLimit + 1) :
    (printedPackets (pwmDemod levelLimit p window).2).length ≤ 1 := by
  obtain ⟨⟨-, -, h0, -⟩, hr⟩ := inv_of_reachable hreset hp
  exact pwmDemod_window levelLimit h0 window (by omega)

/-- The Prologue instance after a pulse, over a window of 15001 samples. -/
theorem prologue_window_prints_once :
    (printedPackets (pwmDemod 10000 (pwmDemod 10000 prologueInit [20000, 20000]).1
        (List.replicate 15001 0)).2).length ≤ 1 :=
  pwmDemod_window_prints_once 3500 7000 15000 10000 (by decide) _ (reachable_pwmDemod .init _) _
    (by rw [List.length_replicate]; decide)

end Rtl433
