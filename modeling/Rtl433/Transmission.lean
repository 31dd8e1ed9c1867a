import Rtl433.Demod

/-!
# Rtl433 — a PWM transmission decodes to its rows

What `pwm_demod` makes of a well-formed transmission: rows of bits sent as pulses whose
gaps encode the bits, rows joined by a longer separator gap, and a final silence.

* **`RowTail`, `PacketWave`** — the waveform of one row's bits after its first pulse,
  and of a whole packet, built segment by segment in the order a transmitter emits them;
* **`AfterPulse`** — the state inside the last pulse sent so far: the rows packed in
  `bits_buffer`, the cursor after them, and a counted pulse. `afterPulse_start`,
  `afterPulse_bitWave` and `afterPulse_separatorWave` are its step lemmas and
  `afterPulse_packetWave` the run lemma;
* `fieldValue` — the number an MSB-first run of a row's bits spells; byte `j` of a
  packed row is the run of width 8 at `8j`, and `eq_packByte` reads it back from its bits;
* **`packRows`** — the 12 × 5 bytes of the rows packed MSB-first and zero-padded; after
  the final silence it is the one packet printed, however the stream is split into
  `pwm_demod` calls (`pwmDemodCalls_transmission`).

A transmission of no rows is only the silence, and counting starts at a pulse: nothing
is printed then (`pwmDemod_silence_only`).
-/

namespace Rtl433

/-! ## The waveform -/

section Waveform

variable (levelLimit shortLimit longLimit resetLimit : Int)

/-- A run of samples above the level. -/
def IsPulse (xs : List Int) : Prop := ∀ x ∈ xs, levelLimit < x

/-- A run of samples below the level. -/
def IsGap (xs : List Int) : Prop := ∀ x ∈ xs, x < levelLimit

theorem isGap_replicate {lo : Int} (h : lo < levelLimit) (n : Nat) :
    IsGap levelLimit (List.replicate n lo) :=
  fun _ hx => (List.eq_of_mem_replicate hx) ▸ h

/-- The first pulse of a row: `2 ≤ w ≤ reset_limit` samples above the level. -/
def FirstPulse (xs : List Int) : Prop :=
  IsPulse levelLimit xs ∧ 2 ≤ xs.length ∧ (xs.length : Int) ≤ resetLimit

/-- The bits of a row after its first pulse. Bit `b` is a gap of `g ≥ 1` samples whose
counter `g + 1` lies in the band of `b`, then a pulse of `w ≥ 2` samples with
`g + w ≤ reset_limit`. -/
inductive RowTail : List Bool → List Int → Prop
  | nil : RowTail [] []
  | snoc {bits xs gap pulse} (b : Bool) : RowTail bits xs → IsGap levelLimit gap → gap ≠ [] →
      GapBit shortLimit longLimit (gap.length + 1) b → IsPulse levelLimit pulse →
      2 ≤ pulse.length → (gap.length + pulse.length : Int) ≤ resetLimit →
      RowTail (bits ++ [b]) (xs ++ (gap ++ pulse))

/-- A packet: the first row, then each further row after a separator gap of `g ≥ 1`
samples with `long_limit ≤ g + 1` and `g ≤ reset_limit`. -/
inductive PacketWave : List (List Bool) → List Int → Prop
  | first {bits pulse xs} : FirstPulse levelLimit resetLimit pulse →
      RowTail levelLimit shortLimit longLimit resetLimit bits xs → PacketWave [bits] (pulse ++ xs)
  | next {rows ys gap bits pulse xs} : PacketWave rows ys → IsGap levelLimit gap → gap ≠ [] →
      longLimit ≤ gap.length + 1 → (gap.length : Int) ≤ resetLimit →
      FirstPulse levelLimit resetLimit pulse →
      RowTail levelLimit shortLimit longLimit resetLimit bits xs →
      PacketWave (rows ++ [bits]) (ys ++ (gap ++ pulse) ++ xs)

end Waveform

/-! ## Rows packed MSB-first -/

/-- Byte `j` of a row packed MSB-first and zero-padded: row bits `8*j` to `8*j + 7`, the
first of them in bit 7. -/
def packByte (bits : List Bool) (j : Nat) : Nat :=
  (List.range 8).foldl (fun acc m => 2 * acc + (bits.getD (8 * j + m) false).toNat) 0

/-- The 12 × 5 bytes of `rows` packed MSB-first, zero past the rows. -/
def packRows (rows : List (List Bool)) : List (List Nat) :=
  (List.range bitbufRows).map fun i =>
    (List.range bitbufCols).map fun j => packByte (rows.getD i []) j

/-- The number the bits `o, o+1, …, o+w-1` of a row spell, MSB first, zero past the row:
byte `j` of the packed row is the run of width 8 at `8j`. -/
def fieldValue (bits : List Bool) (o w : Nat) : Nat :=
  (List.range w).foldl (fun acc m => 2 * acc + (bits.getD (o + m) false).toNat) 0

theorem packByte_eq_fieldValue (bits : List Bool) (j : Nat) :
    packByte bits j = fieldValue bits (8 * j) 8 := rfl

@[simp] theorem fieldValue_zero (bits : List Bool) (o : Nat) : fieldValue bits o 0 = 0 := rfl

theorem fieldValue_succ (bits : List Bool) (o w : Nat) :
    fieldValue bits o (w + 1) = 2 * fieldValue bits o w + (bits.getD (o + w) false).toNat := by
  simp only [fieldValue, List.range_succ, List.foldl_append, List.foldl_cons, List.foldl_nil]

/-- Bit `k` of a run counts from its last bit. -/
theorem testBit_fieldValue (bits : List Bool) (o w k : Nat) :
    (fieldValue bits o w).testBit k = (decide (k < w) && bits.getD (o + (w - 1 - k)) false) := by
  induction w generalizing k with
  | zero => simp
  | succ w ih =>
    rw [fieldValue_succ]
    cases k with
    | zero =>
      show _ = (decide (0 < w + 1) && bits.getD (o + w) false)
      generalize bits.getD (o + w) false = c
      cases c <;> simp [Nat.testBit_zero, Nat.mul_add_mod]
    | succ k =>
      rw [Nat.testBit_succ, show (2 * fieldValue bits o w + (bits.getD (o + w) false).toNat) / 2 =
        fieldValue bits o w by have := Bool.toNat_le (bits.getD (o + w) false); omega, ih,
        show w + 1 - 1 - (k + 1) = w - 1 - k by omega]
      simp only [Nat.add_lt_add_iff_right]

/-- A byte whose eight bits are those of byte `j` of a packed row is that byte. -/
theorem eq_packByte {v : Nat} (hv : v < 256) (bits : List Bool) (j : Nat)
    (h : ∀ t < 8, v.testBit t = rowBit bits j t) : v = packByte bits j := by
  refine Nat.eq_of_testBit_eq fun t => ?_
  rw [packByte_eq_fieldValue, testBit_fieldValue]
  by_cases ht : t < 8
  · rw [h t ht, rowBit, show 8 - 1 - t = 7 - t by omega]; simp [ht]
  · have h8 : 2 ^ 8 ≤ 2 ^ t := Nat.pow_le_pow_right (by norm_num) (by omega)
    rw [Nat.testBit_lt_two_pow (lt_of_lt_of_le hv h8)]
    simp [ht]

/-- A matrix holding `rows` prints as `packRows rows`. -/
theorem bitsSnapshot_of_packs {buf : Int → Int → Nat} {rows : List (List Bool)}
    (h : Packs buf rows) : bitsSnapshot buf = packRows rows :=
  List.map_congr_left fun i _ => List.map_congr_left fun j _ =>
    eq_packByte (h i j).1 _ _ fun t ht => by simpa using (h i j).2 t ht

/-- The cleared matrix holds one empty row. -/
theorem packs_cleared : Packs (fun _ _ => 0) [[]] := by
  intro r c
  refine ⟨by norm_num, fun t _ => ?_⟩
  have hrow : [([] : List Bool)].getD r.toNat [] = [] := by cases r.toNat <;> rfl
  simp [hrow, rowBit_nil]

/-! ## Inside a pulse

Between segments of a transmission the instance is inside a pulse it counts, with the
rows so far packed and the cursor after them. A bit gap with its pulse, or a separator
gap with the next row's first pulse, leads back to such a state. -/

/-- The state inside the last pulse of a packet under way: rows `done` finished and row
`cur` in progress, packed in `bits_buffer` with the cursor after them; the instance
counts the pulse and keeps its limits. -/
structure AfterPulse (shortLimit longLimit resetLimit : Int) (p : ProtocolState)
    (done : List (List Bool)) (cur : List Bool) : Prop where
  limits : p.shortLimit = shortLimit ∧ p.longLimit = longLimit ∧ p.resetLimit = resetLimit
  flags : p.pulseCount = 1 ∧ p.startC = 1 ∧ p.pulseDistance = 0
  packs : Packs p.bitsBuffer (done ++ [cur])
  cursor : p.CursorAt done.length cur.length

section Steps

variable {levelLimit shortLimit longLimit resetLimit : Int} {p : ProtocolState}
  {done : List (List Bool)} {cur : List Bool}

/-- **The first pulse**, from an idle instance cleared by `demod_reset_bits_packet`. -/
theorem afterPulse_start
    (hidle : p.pulseCount = 0 ∧ p.pulseDistance = 0 ∧ p.startC = 0 ∧ p.sampleCounter = 0)
    {pulse : List Int} (hw : FirstPulse levelLimit p.resetLimit pulse) :
    AfterPulse p.shortLimit p.longLimit p.resetLimit
        (pwmDemod levelLimit (demodResetBitsPacket p) pulse).1 [] [] ∧
      (pwmDemod levelLimit (demodResetBitsPacket p) pulse).2 = [] := by
  obtain ⟨hxs, hlen, hr⟩ := hw
  rw [pwmDemod_pulse pulse hxs (List.ne_nil_of_length_pos (by omega)) (by exact hidle.2.1)
    (by simp [demodResetBitsPacket, hidle.2.2.2, hr])]
  exact ⟨⟨⟨rfl, rfl, rfl⟩, ⟨rfl, rfl, hidle.2.1⟩, packs_cleared, ⟨rfl, rfl, rfl⟩⟩, rfl⟩

/-- **One bit.** A gap in the band of bit `b` and the pulse after it append `b` to the
row under way. -/
theorem afterPulse_bitWave (h : AfterPulse shortLimit longLimit resetLimit p done cur)
    (hn : cur.length < 40) {b : Bool} {gap pulse : List Int} (hgap : IsGap levelLimit gap)
    (hne : gap ≠ []) (hband : GapBit shortLimit longLimit (gap.length + 1) b)
    (hpulse : IsPulse levelLimit pulse) (hw : 2 ≤ pulse.length)
    (hgw : (gap.length + pulse.length : Int) ≤ resetLimit) :
    AfterPulse shortLimit longLimit resetLimit (pwmDemod levelLimit p (gap ++ pulse)).1 done
        (cur ++ [b]) ∧
      printedPackets (pwmDemod levelLimit p (gap ++ pulse)).2 = [] := by
  obtain ⟨⟨hs, hl, hr⟩, ⟨hpc, hst, -⟩, hpk, hcur⟩ := h
  rw [pwmDemod_append, pwmDemod_fallGap gap hgap hne hpc hst (by omega),
    pwmDemod_bitPulse b pulse hpulse hw rfl (by simpa [hs, hl] using hband) (by simp; omega)]
  refine ⟨⟨by simp [hs, hl, hr], by simp, demodAddBit_packs (by exact hpk) (by exact hcur) hn b, ?_⟩,
    by simp⟩
  rw [List.length_append, List.length_singleton]
  exact cursorAt_demodAddBit (by exact hcur) _

/-- **A row advance.** A separator gap and the first pulse of the next row close the
row under way and open an empty one. -/
theorem afterPulse_separatorWave (h : AfterPulse shortLimit longLimit resetLimit p done cur)
    (hrow : done.length < 11) (hsl : shortLimit ≤ longLimit) {gap pulse : List Int}
    (hgap : IsGap levelLimit gap) (hne : gap ≠ []) (hsep : longLimit ≤ gap.length + 1)
    (hg : (gap.length : Int) ≤ resetLimit) (hpulse : FirstPulse levelLimit resetLimit pulse) :
    AfterPulse shortLimit longLimit resetLimit (pwmDemod levelLimit p (gap ++ pulse)).1
        (done ++ [cur]) [] ∧
      printedPackets (pwmDemod levelLimit p (gap ++ pulse)).2 = [] := by
  obtain ⟨⟨hs, hl, hr⟩, ⟨hpc, hst, -⟩, hpk, hrow', -, -⟩ := h
  obtain ⟨hxs, hw, hwr⟩ := hpulse
  rw [pwmDemod_append, pwmDemod_fallGap gap hgap hne hpc hst (by omega),
    pwmDemod_separatorPulse pulse hxs hw rfl (by simpa [hl] using hsep) (by simpa [hs, hl] using hsl)
      (by simp; omega)]
  refine ⟨⟨by simp [hs, hl, hr], by simp, by simpa using packs_append_nil hpk, ?_⟩, by simp⟩
  simp only [ProtocolState.CursorAt, demodNextBitsPacket_fst]
  simp; omega

/-- **A row's bits**, by induction on the row: the tail appends its bits to the row
under way, as long as the row keeps within 40 bits. -/
theorem afterPulse_rowTail (h : AfterPulse shortLimit longLimit resetLimit p done cur)
    {bits : List Bool} {xs : List Int}
    (hw : RowTail levelLimit shortLimit longLimit resetLimit bits xs)
    (hn : cur.length + bits.length ≤ 40) :
    AfterPulse shortLimit longLimit resetLimit (pwmDemod levelLimit p xs).1 done (cur ++ bits) ∧
      printedPackets (pwmDemod levelLimit p xs).2 = [] := by
  induction hw with
  | nil => exact ⟨by simpa using h, rfl⟩
  | snoc b _ hgap hne hband hpulse hw hgw ih =>
    simp only [List.length_append, List.length_singleton] at hn
    obtain ⟨h₁, e₁⟩ := ih (by omega)
    obtain ⟨h₂, e₂⟩ := afterPulse_bitWave h₁ (by simp; omega) hgap hne hband hpulse hw hgw
    rw [pwmDemod_append, printedPackets_append, e₁, e₂, ← List.append_assoc]
    exact ⟨h₂, rfl⟩

end Steps

/-- Every packet has a first pulse, so its `reset_limit` is at least 2. -/
theorem PacketWave.two_le_reset {levelLimit shortLimit longLimit resetLimit : Int}
    {rows : List (List Bool)} {xs : List Int}
    (hw : PacketWave levelLimit shortLimit longLimit resetLimit rows xs) : 2 ≤ resetLimit := by
  cases hw with
  | first hp _ => have := hp.2.2; have := hp.2.1; omega
  | next _ _ _ _ _ hp _ => have := hp.2.2; have := hp.2.1; omega

/-- A packet has a row. -/
theorem PacketWave.ne_nil {levelLimit shortLimit longLimit resetLimit : Int}
    {rows : List (List Bool)} {xs : List Int}
    (hw : PacketWave levelLimit shortLimit longLimit resetLimit rows xs) : rows ≠ [] := by
  cases hw <;> simp

/-! ## The transmission theorem -/

section Packet

variable {levelLimit : Int} {p : ProtocolState}

/-- The rows of a packet with `pre` in front of its first row: what an instance that has
already taken the bits `pre` into its first row makes of the packet. -/
def prependFirst (pre : List Bool) : List (List Bool) → List (List Bool)
  | [] => []
  | r :: rs => (pre ++ r) :: rs

@[simp] theorem prependFirst_nil (rows : List (List Bool)) : prependFirst [] rows = rows := by
  cases rows <;> rfl

@[simp] theorem length_prependFirst (pre : List Bool) (rows : List (List Bool)) :
    (prependFirst pre rows).length = rows.length := by
  cases rows <;> rfl

theorem prependFirst_append_singleton (pre : List Bool) {rows : List (List Bool)}
    (h : rows ≠ []) (bits : List Bool) :
    prependFirst pre (rows ++ [bits]) = prependFirst pre rows ++ [bits] := by
  obtain ⟨r, rs, rfl⟩ := List.exists_cons_of_ne_nil h
  rfl

/-- **The run lemma, from any start.** If every first pulse leaves the instance inside it
with the bits `pre` in its first row, a packet of at most 12 rows, each of at most 40
bits once `pre` is in front of the first, leaves it inside the packet's last pulse with
all the rows packed, having printed nothing. -/
theorem afterPulse_packetWave_from {shortLimit longLimit resetLimit : Int} {pre : List Bool}
    (hstart : ∀ pulse, FirstPulse levelLimit resetLimit pulse →
      AfterPulse shortLimit longLimit resetLimit (pwmDemod levelLimit p pulse).1 [] pre ∧
        printedPackets (pwmDemod levelLimit p pulse).2 = [])
    (hsl : shortLimit ≤ longLimit) {rows : List (List Bool)} {xs : List Int}
    (hw : PacketWave levelLimit shortLimit longLimit resetLimit rows xs)
    (hk : rows.length ≤ 12) (hbits : ∀ row ∈ prependFirst pre rows, row.length ≤ 40) :
    ∃ done cur, prependFirst pre rows = done ++ [cur] ∧
      AfterPulse shortLimit longLimit resetLimit (pwmDemod levelLimit p xs).1 done cur ∧
      printedPackets (pwmDemod levelLimit p xs).2 = [] := by
  induction hw with
  | first hpulse htail =>
    obtain ⟨h₁, e₁⟩ := hstart _ hpulse
    obtain ⟨h₂, e₂⟩ := afterPulse_rowTail h₁ htail
      (by simpa using hbits _ (List.mem_singleton_self _))
    refine ⟨[], _, rfl, ?_⟩
    rw [pwmDemod_append, printedPackets_append, e₁, e₂]
    exact ⟨h₂, rfl⟩
  | @next rows _ _ bits _ _ hrw hgap hne hsep hg hpulse htail ih =>
    rw [prependFirst_append_singleton pre hrw.ne_nil] at hbits ⊢
    simp only [List.length_append, List.length_singleton] at hk
    obtain ⟨done, cur, hdc, h₁, e₁⟩ :=
      ih (by omega) fun row hr => hbits row (List.mem_append_left _ hr)
    have hlen : done.length < 11 := by
      have := congrArg List.length hdc; simp at this; omega
    obtain ⟨h₂, e₂⟩ := afterPulse_separatorWave h₁ hlen hsl hgap hne hsep hg hpulse
    obtain ⟨h₃, e₃⟩ := afterPulse_rowTail h₂ htail (by simpa using hbits _ (by simp))
    refine ⟨done ++ [cur], _, by rw [hdc], ?_⟩
    rw [pwmDemod_append, pwmDemod_append]
    simp only [printedPackets_append, e₁, e₂, e₃]
    exact ⟨by simpa using h₃, rfl⟩

/-- **The run lemma.** A packet of at most 12 rows of at most 40 bits each, sent to an
idle instance cleared by `demod_reset_bits_packet`, leaves it inside the packet's last
pulse with all the rows packed, having printed nothing. -/
theorem afterPulse_packetWave
    (hidle : p.pulseCount = 0 ∧ p.pulseDistance = 0 ∧ p.startC = 0 ∧ p.sampleCounter = 0)
    (hsl : p.shortLimit ≤ p.longLimit) {rows : List (List Bool)} {xs : List Int}
    (hw : PacketWave levelLimit p.shortLimit p.longLimit p.resetLimit rows xs)
    (hk : rows.length ≤ 12) (hbits : ∀ row ∈ rows, row.length ≤ 40) :
    ∃ done cur, rows = done ++ [cur] ∧
      AfterPulse p.shortLimit p.longLimit p.resetLimit
        (pwmDemod levelLimit (demodResetBitsPacket p) xs).1 done cur ∧
      printedPackets (pwmDemod levelLimit (demodResetBitsPacket p) xs).2 = [] := by
  simpa using @afterPulse_packetWave_from _ _ _ _ _ []
    (fun _ hw => (afterPulse_start hidle hw).imp_right fun e => by rw [e]; rfl) hsl _ _ hw hk
    (by simpa using hbits)

/-- **A transmission decodes to its rows.** For an idle instance cleared by
`demod_reset_bits_packet` with `short_limit ≤ long_limit` and `reset_limit < INT_MAX`, a
packet of at most 12 rows of at most 40 bits closed by more than `reset_limit` samples
below the level makes `pwm_demod` print exactly one packet, the rows packed MSB-first,
however the stream is split into calls, and only after the final silence: the packet and
the first `reset_limit` samples of the silence print nothing. No `sample_counter++` of the
run leaves `int`. -/
theorem pwmDemodCalls_transmission (levelLimit : Int) (p : ProtocolState)
    (hidle : p.pulseCount = 0 ∧ p.pulseDistance = 0 ∧ p.startC = 0 ∧ p.sampleCounter = 0)
    (hsl : p.shortLimit ≤ p.longLimit) (hmax : p.resetLimit < 2 ^ 31 - 1)
    (rows : List (List Bool)) (xs silence : List Int)
    (hw : PacketWave levelLimit p.shortLimit p.longLimit p.resetLimit rows xs)
    (hk : rows.length ≤ 12) (hbits : ∀ row ∈ rows, row.length ≤ 40)
    (hsil : IsGap levelLimit silence) (hlen : p.resetLimit < silence.length)
    (calls : List (List Int)) (hcalls : calls.flatten = xs ++ silence) :
    printedPackets (pwmDemod levelLimit (demodResetBitsPacket p)
        (xs ++ silence.take p.resetLimit.toNat)).2 = [] ∧
      printedPackets (pwmDemodCalls levelLimit (demodResetBitsPacket p) calls).2 = [packRows rows] ∧
      CounterFits levelLimit (demodResetBitsPacket p) calls.flatten := by
  have hr2 := hw.two_le_reset
  obtain ⟨done, cur, rfl, ⟨⟨-, -, hr⟩, ⟨hpc, hst, -⟩, hpk, -⟩, e⟩ :=
    afterPulse_packetWave hidle hsl hw hk hbits
  have htake : ((silence.take p.resetLimit.toNat).length : Int) = p.resetLimit := by
    rw [List.length_take, min_eq_left (by omega)]; omega
  refine ⟨?_, ?_, counterFits_of_inv (by simp [demodResetBitsPacket]; omega)
    (by simpa [demodResetBitsPacket] using hmax)
    (inv_demodResetBitsPacket (by omega) ⟨hidle.1, .inl hidle.2.1, hidle.2.2.1⟩ hidle.2.2.2) _ _⟩
  · -- the silence is counted from its first sample, and reaches `reset_limit` unprinted
    rw [pwmDemod_append, printedPackets_append, e, pwmDemod_fallGap _
      (fun x hx => hsil x (List.mem_of_mem_take hx))
      (List.ne_nil_of_length_pos (by omega)) hpc hst (by omega)]
    rfl
  · rw [pwmDemodCalls_eq, hcalls, pwmDemod_append, printedPackets_append, e,
      pwmDemod_fallSilence silence hsil hpc hst (by omega) (by omega), bitsSnapshot_of_packs hpk]
    rfl

/-- The Rubicson instance: one row holding a 1 bit (a first pulse of 2 samples, a gap of
2000 samples whose counter 2001 lies in `[1744, 3500)`, a pulse of 2 samples), then 5001
samples of silence, in two calls. -/
theorem pwmDemodCalls_transmission_rubicson :
    printedPackets (pwmDemod 10000 (demodResetBitsPacket rubicsonInit)
        ([20000, 20000] ++ (List.replicate 2000 0 ++ [20000, 20000]) ++
          (List.replicate 5001 0).take rubicsonInit.resetLimit.toNat)).2 = [] ∧
      printedPackets (pwmDemodCalls 10000 (demodResetBitsPacket rubicsonInit)
        [[20000, 20000] ++ (List.replicate 2000 0 ++ [20000, 20000]), List.replicate 5001 0]).2 =
        [packRows [[true]]] ∧
      CounterFits 10000 (demodResetBitsPacket rubicsonInit)
        [[20000, 20000] ++ (List.replicate 2000 0 ++ [20000, 20000]), List.replicate 5001 0].flatten := by
  have hpulse : IsPulse 10000 [20000, 20000] := by simp [IsPulse]
  have htail : RowTail 10000 rubicsonInit.shortLimit rubicsonInit.longLimit
      rubicsonInit.resetLimit [true] (List.replicate 2000 0 ++ [20000, 20000]) := by
    simpa only [List.nil_append] using
      @RowTail.snoc 10000 _ _ _ [] [] (List.replicate 2000 0) _ true .nil (isGap_replicate 10000 (by decide) _)
        (List.ne_nil_of_length_pos (by rw [List.length_replicate]; decide))
        (by rw [List.length_replicate]; simp [GapBit, rubicsonInit, ProtocolState.init,
          demodResetBitsPacket])
        hpulse (by decide)
        (by rw [List.length_replicate]; simp [rubicsonInit, ProtocolState.init, demodResetBitsPacket])
  exact pwmDemodCalls_transmission 10000 rubicsonInit (by decide) (by decide) (by decide) [[true]] _
    (List.replicate 5001 0)
    (.first ⟨hpulse, by decide, by decide⟩ htail) (by decide) (by simp)
    (isGap_replicate 10000 (by decide) _) (by rw [List.length_replicate]; decide) _
    (by simp only [List.flatten_cons, List.flatten_nil, List.append_nil])

/-- A transmission of no rows is the final silence alone: counting starts at a pulse,
so nothing is printed. -/
theorem pwmDemod_silence_only :
    printedPackets (pwmDemod 10000 rubicsonInit (List.replicate 5001 0)).2 = [] := by
  rw [pwmDemod_idle _ (isGap_replicate 10000 (by decide) _) rfl rfl (by decide)]
  rfl

end Packet

end Rtl433
