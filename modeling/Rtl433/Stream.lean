import Rtl433.Callback

/-!
# Rtl433 — the block pipeline against the stream it cuts

The receiver sees a stream of IQ bytes cut into blocks. The reference below is the
pipeline run once over the whole stream, written from its description: keep every
`2^d`-th complex sample, take its power, filter the whole sequence from zero history.

* **`rtlsdrCallback_first_block`** — without decimation, the first block from the start
  state hands both demodulators exactly the reference samples of its bytes;
* **`callbackRun_split_lags`** — across a block boundary the code does not: the history
  `low_pass_filter` carries is the second-to-last sample of the block, so the filtered
  sequence restarts one sample back at every boundary, and a stream of full-scale
  samples cut into 4-byte blocks stays below the level where the reference crosses it;
* **`callbackRun_decode`** — what the code computes instead: block after block, both
  instances run over the outputs of consecutive `low_pass_filter` calls on the blocks'
  envelopes, each from the history the call before left;
* **`callbackRun_zero_padded`** — with decimation `d > 0` each block's outputs reach the
  instances followed by zero samples, the cells of `f_buf` past the `len >> (d+1)` a call
  writes among the `len / 2` the callback hands on.
-/

namespace Rtl433

/-! ## The stream-level reference -/

/-- The reference's envelope: every `2^d`-th complex sample of the whole stream, mapped
to `I² + Q²`. -/
def referenceEnvelope (d : Nat) (bytes : List UInt8) : List Nat :=
  (List.range ((bytes.length / 2 + 2 ^ d - 1) / 2 ^ d)).map fun k =>
    (iqPower (bytes.getD (2 * (k * 2 ^ d)) 0) (bytes.getD (2 * (k * 2 ^ d) + 1) 0)).toNat

/-- The reference's filter: the recurrence of `low_pass_filter` run once over the whole
sequence. -/
def referenceFilter (yPrev : Int) (xPrev : Nat) : List Nat → List Int
  | [] => []
  | x :: xs => lowPassAcc yPrev x xPrev :: referenceFilter (lowPassAcc yPrev x xPrev) x xs

/-- The samples the reference hands the demodulators: the filter from `x[-1] = y[-1] = 0`
over the envelope of the whole stream. -/
def referenceSamples (d : Nat) (bytes : List UInt8) : List Int :=
  referenceFilter 0 0 (referenceEnvelope d bytes)

/-- Decode mode as `main` sets it up without options and without a sink. -/
def decodeConfig : Config :=
  { levelLimit := defaultLevelLimit, decimationLevel := 0, analyze := false, saveData := false,
    hasFile := false }

/-! ## One block -/

/-- Inside the box of `lowPassEval_fits` the stored filter is the reference recurrence. -/
theorem lowPassRun_eq_referenceFilter (yPrev : Int) (xPrev : Nat) (xs : List Nat)
    (ylo : 0 ≤ yPrev) (yhi : yPrev ≤ 32767) (hxp : xPrev ≤ 32768) (hxs : ∀ x ∈ xs, x ≤ 32768) :
    lowPassRun yPrev xPrev xs = referenceFilter yPrev xPrev xs := by
  induction xs generalizing yPrev xPrev with
  | nil => rfl
  | cons x xs ih =>
    have hx := hxs x (List.mem_cons_self x xs)
    have hfit := lowPassEval_fits ylo yhi hx hxp
    rw [lowPassRun, referenceFilter, lowPassStep_of_fits hfit,
      ih _ _ hfit.2.1 hfit.2.2 hx fun z hz => hxs z (List.mem_cons_of_mem x hz)]

/-- The envelope samples `low_pass_filter` reads from a block are the reference's envelope
of the block, when the block's pairs split evenly into groups of `2^d`. -/
theorem envelope_eq_referenceEnvelope (d : Nat) (blk : List UInt8) (hdiv : 2 ^ d ∣ blk.length / 2) :
    (List.range (blk.length >>> (d + 1))).map
        (loadU16 (envelopeDetect (fun k => blk.getD k 0) blk.length d)) =
      referenceEnvelope d blk := by
  obtain ⟨m, hm⟩ := hdiv
  have hpos : 0 < 2 ^ d := Nat.two_pow_pos d
  -- both sides range over the `m` groups
  have hcount : envelopeCount blk.length d = m := by
    rw [envelopeCount, hm, show 2 ^ d * m + 2 ^ d - 1 = (2 ^ d - 1) + m * 2 ^ d by rw [Nat.mul_comm]; omega,
      Nat.add_mul_div_right _ _ hpos, Nat.div_eq_of_lt (by omega), Nat.zero_add]
  have hshift : blk.length >>> (d + 1) = m := by
    rw [Nat.shiftRight_eq_div_pow, pow_succ, Nat.mul_comm, ← Nat.div_div_eq_div_mul, hm,
      Nat.mul_div_cancel_left _ hpos]
  rw [referenceEnvelope, hshift, ← envelopeCount, hcount]
  refine List.map_congr_left fun k hk => ?_
  have h := loadU16_envelopeDetect (fun k => blk.getD k 0) blk.length d k
    (by rw [hcount]; exact List.mem_range.mp hk)
  dsimp only at h
  have hmem := iqPower_mem (blk.getD (2 * (k * 2 ^ d)) 0) (blk.getD (2 * (k * 2 ^ d) + 1) 0)
  omega

theorem length_referenceEnvelope_zero (blk : List UInt8) :
    (referenceEnvelope 0 blk).length = blk.length / 2 := by
  simp [referenceEnvelope]

/-- Without decimation the envelope is taken pair by pair, so it splits where the stream
does, at an even byte. -/
theorem referenceEnvelope_zero_append {xs : List UInt8} (ys : List UInt8) (h : xs.length % 2 = 0) :
    referenceEnvelope 0 (xs ++ ys) = referenceEnvelope 0 xs ++ referenceEnvelope 0 ys := by
  simp only [referenceEnvelope, pow_zero, Nat.add_sub_cancel, Nat.div_one, mul_one, List.length_append]
  rw [show (xs.length + ys.length) / 2 = xs.length / 2 + ys.length / 2 by omega, List.range_add,
    List.map_append, List.map_map]
  congr 1
  · refine List.map_congr_left fun k hk => ?_
    have := List.mem_range.mp hk
    rw [List.getD_append _ _ _ _ (by omega), List.getD_append _ _ _ _ (by omega)]
  · refine List.map_congr_left fun k _ => ?_
    rw [Function.comp_apply, List.getD_append_right _ _ _ _ (by omega),
      List.getD_append_right _ _ _ _ (by omega), show 2 * (xs.length / 2 + k) - xs.length = 2 * k by omega,
      show 2 * (xs.length / 2 + k) + 1 - xs.length = 2 * k + 1 by omega]

theorem referenceEnvelope_zero_pair (i q : UInt8) :
    referenceEnvelope 0 [i, q] = [(iqPower i q).toNat] := by
  simp [referenceEnvelope, List.range_succ]

/-- The unmodulated carrier, bytes `0x80`, has power zero. -/
theorem referenceEnvelope_zero_quiet (m : Nat) :
    referenceEnvelope 0 (List.replicate (2 * m) 0x80) = List.replicate m 0 := by
  induction m with
  | zero => rfl
  | succ m ih =>
    rw [show 2 * (m + 1) = 2 + 2 * m by ring, List.replicate_add,
      referenceEnvelope_zero_append _ (by simp), ih]
    rfl

/-- When a call wrote all `len / 2` cells the consumers read, they read its outputs. -/
theorem consumerSamples_of_decodeStep {cfg : Config} {rx rx' : Receiver} {len : Nat}
    {ys : List Int} {st : LpState} {es : List CallbackEvent} (h : DecodeStep cfg rx len ys st rx' es)
    (hys : ys.length = len / 2) : consumerSamples rx'.filterBuffer len = ys := by
  rw [h.filterBuffer, consumerSamples_storeFilterOutputs _ _ hys.le, hys, Nat.sub_self, List.range_zero,
    List.map_nil, List.append_nil]

/-- **One block is decoded like the stream.** Without decimation, the first block of at
least two samples from the start state hands both demodulators exactly the reference
samples of its bytes, so each instance ends where the reference takes it. -/
theorem rtlsdrCallback_first_block (cfg : Config) (hd : cfg.decimationLevel = 0)
    (hactive : (cfg.hasFile || !cfg.saveData) = true) (ha : cfg.analyze = false)
    (blk : List UInt8) (hlen : 4 ≤ blk.length) :
    ∃ rx es, rtlsdrCallback cfg (.init 0) (fun k => blk.getD k 0) blk.length = some (rx, es) ∧
      rx.prologue = (pwmDemod cfg.levelLimit prologueInit (referenceSamples 0 blk)).1 ∧
      rx.rubicson = (pwmDemod cfg.levelLimit rubicsonInit (referenceSamples 0 blk)).1 := by
  have hxs : ∀ x ∈ referenceEnvelope 0 blk, x ≤ 32768 := by
    simp only [referenceEnvelope, List.mem_map]
    rintro _ ⟨k, -, rfl⟩
    have := iqPower_mem (blk.getD (2 * (k * 2 ^ 0)) 0) (blk.getD (2 * (k * 2 ^ 0) + 1) 0)
    omega
  -- from zero history the call is the reference filter
  obtain ⟨st, hf⟩ : ∃ st, lowPassFilter ⟨(Receiver.init 0).lpXmem, (Receiver.init 0).filterBuffer 0⟩
      (referenceEnvelope 0 blk) = some (referenceSamples 0 blk, st) := by
    rw [lowPassFilter, if_pos (by rw [length_referenceEnvelope_zero, filterOrder_eq]; omega), referenceSamples,
      ← lowPassRun_eq_referenceFilter 0 0 _ le_rfl (by decide) (by decide) hxs]
    exact ⟨_, rfl⟩
  obtain ⟨rx, es, hcb, hstep⟩ := rtlsdrCallback_decodeStep cfg hactive ha rfl rfl _ _
    (by rw [hd, envelope_eq_referenceEnvelope 0 blk (by simp)]; exact hf)
  have hsamples := consumerSamples_of_decodeStep hstep (by
    rw [lowPassFilter_fst hf, length_lowPassRun, length_referenceEnvelope_zero])
  exact ⟨rx, es, hcb, congrArg Prod.fst (hsamples ▸ hstep.prologue),
    congrArg Prod.fst (hsamples ▸ hstep.rubicson)⟩

/-- A first block of two full-scale samples. -/
theorem rtlsdrCallback_first_block_full_scale :
    ∃ rx es, rtlsdrCallback decodeConfig (.init 0) (fun k => ([0, 0, 0, 0] : List UInt8).getD k 0)
        ([0, 0, 0, 0] : List UInt8).length = some (rx, es) ∧
      rx.prologue =
        (pwmDemod decodeConfig.levelLimit prologueInit (referenceSamples 0 [0, 0, 0, 0])).1 ∧
      rx.rubicson =
        (pwmDemod decodeConfig.levelLimit rubicsonInit (referenceSamples 0 [0, 0, 0, 0])).1 :=
  rtlsdrCallback_first_block decodeConfig rfl rfl rfl [0, 0, 0, 0] (by decide)

/-! ## Block after block

Each callback runs `low_pass_filter` on its block's envelope from the history the call
before left, and hands the instances the first `len / 2` cells of `f_buf`. Without
decimation those are exactly the call's outputs; with decimation `d > 0` they are its
`len >> (d+1)` outputs followed by cells no call of that length writes, which stay zero.
This is what the code computes; the reference runs the recurrence once over the whole
stream and hands the instances nothing else. -/

/-- The run of decode callbacks over blocks of at least two samples, from a state with no
budget and no pending exit: the instances run over the consecutive filter calls. -/
theorem callbackRun_decodes (cfg : Config) (hd : cfg.decimationLevel = 0)
    (hactive : (cfg.hasFile || !cfg.saveData) = true) (ha : cfg.analyze = false)
    (rx : Receiver) (hexit : rx.doExit = false) (hbudget : rx.bytesToRead = 0)
    (blocks : List (List UInt8)) (hlen : ∀ blk ∈ blocks, 4 ≤ blk.length) :
    ∃ rx' es yss st, callbackRun cfg rx blocks = some (rx', es) ∧
      lowPassCalls ⟨rx.lpXmem, rx.filterBuffer 0⟩ (blocks.map (referenceEnvelope 0)) =
        some (yss, st) ∧
      (rx'.prologue, prologueEvents es) = pwmDemod cfg.levelLimit rx.prologue yss.flatten ∧
      (rx'.rubicson, rubicsonEvents es) = pwmDemod cfg.levelLimit rx.rubicson yss.flatten := by
  have hrun := callbackRun_of_decodeStep cfg (fun r => r.doExit = false ∧ r.bytesToRead = 0)
    (referenceEnvelope 0) id blocks (fun r ⟨hexit, hbudget⟩ blk hblk => by
      have h4 := hlen blk hblk
      obtain ⟨ys, st, hf, hys⟩ := lowPassFilter_of_two_le ⟨r.lpXmem, r.filterBuffer 0⟩
        (show 2 ≤ (referenceEnvelope 0 blk).length by rw [length_referenceEnvelope_zero]; omega)
      obtain ⟨rx₁, es₁, hcb, hdec⟩ := rtlsdrCallback_decodeStep cfg hactive ha hexit hbudget _ _
        (by rw [hd, envelope_eq_referenceEnvelope 0 blk (by simp)]; exact hf)
      exact ⟨ys, st, rx₁, es₁, hf, hcb, hdec, ⟨hdec.doExit, hdec.bytesToRead⟩,
        consumerSamples_of_decodeStep hdec (hys.trans (length_referenceEnvelope_zero blk))⟩)
    rx ⟨hexit, hbudget⟩
  simpa only [List.flatMap_id] using hrun

/-- **Block after block, the instances run over the per-block filter calls.** Without
decimation, from a state with no budget and no pending exit, blocks of at least two
samples each drive both instances, state and events, exactly as one `pwm_demod` run over
the outputs of consecutive `low_pass_filter` calls on the blocks' envelopes. -/
theorem callbackRun_decode (cfg : Config) (hd : cfg.decimationLevel = 0)
    (hactive : (cfg.hasFile || !cfg.saveData) = true) (ha : cfg.analyze = false)
    (rx : Receiver) (hexit : rx.doExit = false) (hbudget : rx.bytesToRead = 0)
    (blocks : List (List UInt8)) (hlen : ∀ blk ∈ blocks, 4 ≤ blk.length) :
    ∃ rx' es yss st, callbackRun cfg rx blocks = some (rx', es) ∧
      lowPassCalls ⟨rx.lpXmem, rx.filterBuffer 0⟩ (blocks.map (referenceEnvelope 0)) =
        some (yss, st) ∧
      (rx'.prologue, prologueEvents es) = pwmDemod cfg.levelLimit rx.prologue yss.flatten ∧
      (rx'.rubicson, rubicsonEvents es) = pwmDemod cfg.levelLimit rx.rubicson yss.flatten :=
  callbackRun_decodes cfg hd hactive ha rx hexit hbudget blocks hlen

/-- Two blocks of two full-scale samples from the start state. -/
theorem callbackRun_decode_two_blocks :
    ∃ rx' es yss st, callbackRun decodeConfig (.init 0) [[0, 0, 0, 0], [0, 0, 0, 0]] = some (rx', es) ∧
      lowPassCalls ⟨(Receiver.init 0).lpXmem, (Receiver.init 0).filterBuffer 0⟩
          ([[0, 0, 0, 0], [0, 0, 0, 0]].map (referenceEnvelope 0)) = some (yss, st) ∧
      (rx'.prologue, prologueEvents es) =
        pwmDemod decodeConfig.levelLimit (Receiver.init 0).prologue yss.flatten ∧
      (rx'.rubicson, rubicsonEvents es) =
        pwmDemod decodeConfig.levelLimit (Receiver.init 0).rubicson yss.flatten :=
  callbackRun_decode decodeConfig rfl rfl rfl (.init 0) rfl rfl _ (by decide)

/-- The run over blocks of one length `L`, from a state whose `f_buf` is zero past the
`L >> (d+1)` cells every call writes: each block's outputs reach the instances followed by
`L / 2 - L >> (d+1)` zero samples, and the cells stay zero. -/
theorem callbackRun_zero_padded_of_tail (cfg : Config)
    (hactive : (cfg.hasFile || !cfg.saveData) = true) (ha : cfg.analyze = false) {L : Nat}
    (hdiv : 2 ^ (cfg.decimationLevel + 1) ∣ L) (hL : 2 ^ (cfg.decimationLevel + 2) ≤ L)
    (rx : Receiver) (hexit : rx.doExit = false) (hbudget : rx.bytesToRead = 0)
    (htail : ∀ k, L >>> (cfg.decimationLevel + 1) < k → rx.filterBuffer k = 0)
    (blocks : List (List UInt8)) (hlen : ∀ blk ∈ blocks, blk.length = L) :
    ∃ rx' es yss st, callbackRun cfg rx blocks = some (rx', es) ∧
      lowPassCalls ⟨rx.lpXmem, rx.filterBuffer 0⟩ (blocks.map (referenceEnvelope cfg.decimationLevel)) =
        some (yss, st) ∧
      (rx'.prologue, prologueEvents es) = pwmDemod cfg.levelLimit rx.prologue
        (yss.flatMap fun ys => ys ++ List.replicate (L / 2 - ys.length) 0) ∧
      (rx'.rubicson, rubicsonEvents es) = pwmDemod cfg.levelLimit rx.rubicson
        (yss.flatMap fun ys => ys ++ List.replicate (L / 2 - ys.length) 0) := by
  -- a block's pairs split into `n = L >> (d+1)` groups of `2^d`, with `2 ≤ n ≤ L / 2`
  have hgroups : 2 ^ cfg.decimationLevel ∣ L / 2 := by
    obtain ⟨c, hc⟩ := hdiv
    exact ⟨c, by rw [hc, pow_succ, Nat.mul_comm _ 2, Nat.mul_assoc, Nat.mul_div_cancel_left _ (by norm_num)]⟩
  have hn : 2 ≤ L >>> (cfg.decimationLevel + 1) := by
    rw [Nat.shiftRight_eq_div_pow, Nat.le_div_iff_mul_le (Nat.two_pow_pos _), ← pow_succ']; exact hL
  have hnL : L >>> (cfg.decimationLevel + 1) ≤ L / 2 := by
    rw [Nat.shiftRight_eq_div_pow]
    exact Nat.div_le_div_left (Nat.le_self_pow (by omega) 2 |>.trans_eq' (pow_one 2).symm) (by norm_num)
  refine callbackRun_of_decodeStep cfg (fun r => r.doExit = false ∧ r.bytesToRead = 0 ∧
      ∀ k, L >>> (cfg.decimationLevel + 1) < k → r.filterBuffer k = 0)
    (referenceEnvelope cfg.decimationLevel) (fun ys => ys ++ List.replicate (L / 2 - ys.length) 0)
    blocks (fun r ⟨hexit, hbudget, htail⟩ blk hblk => ?_) rx ⟨hexit, hbudget, htail⟩
  have hb := hlen blk hblk
  have henv := envelope_eq_referenceEnvelope cfg.decimationLevel blk (hb ▸ hgroups)
  have hlenv : (referenceEnvelope cfg.decimationLevel blk).length = L >>> (cfg.decimationLevel + 1) := by
    rw [← henv, hb, List.length_map, List.length_range]
  obtain ⟨ys, st, hf, hys⟩ := lowPassFilter_of_two_le ⟨r.lpXmem, r.filterBuffer 0⟩ (hlenv ▸ hn)
  rw [hlenv] at hys
  obtain ⟨rx₁, es₁, hcb, hdec⟩ := rtlsdrCallback_decodeStep cfg hactive ha hexit hbudget _ _
    (by rw [henv]; exact hf)
  refine ⟨ys, st, rx₁, es₁, hf, hcb, hdec, ⟨hdec.doExit, hdec.bytesToRead, fun k hk => ?_⟩, ?_⟩
  · -- the cells past the outputs keep their zeros
    rw [hdec.filterBuffer, storeFilterOutputs, if_neg (by omega), if_neg (by omega)]
    exact htail k hk
  · -- the consumers read the outputs, then cells no call writes
    rw [hdec.filterBuffer, consumerSamples_storeFilterOutputs _ _ (by rw [hys, hb]; exact hnL), hb]
    refine congrArg (ys ++ ·) (List.eq_replicate_iff.mpr ⟨by simp, ?_⟩)
    simp only [List.mem_map, List.mem_range]
    rintro _ ⟨i, -, rfl⟩
    exact htail _ (by omega)

/-- **With decimation the instances also read zeros.** For every decimation exponent `d`
and block length `L` a multiple of `2^(d+1)` and at least `2^(d+2)`, blocks of length `L`
fed from the start state in decode mode drive both instances, state and events, exactly
as one `pwm_demod` run over, block by block, the outputs of consecutive `low_pass_filter`
calls on the blocks' envelopes, each followed by `L/2 - L/2^(d+1)` zero samples: the
callback hands the consumers `len / 2` cells of `f_buf`, of which the call wrote only the
first `len >> (d+1)`. -/
theorem callbackRun_zero_padded (cfg : Config) (hactive : (cfg.hasFile || !cfg.saveData) = true)
    (ha : cfg.analyze = false) (L : Nat) (hdiv : 2 ^ (cfg.decimationLevel + 1) ∣ L)
    (hL : 2 ^ (cfg.decimationLevel + 2) ≤ L) (blocks : List (List UInt8))
    (hlen : ∀ blk ∈ blocks, blk.length = L) :
    ∃ rx' es yss st, callbackRun cfg (.init 0) blocks = some (rx', es) ∧
      lowPassCalls .zero (blocks.map (referenceEnvelope cfg.decimationLevel)) = some (yss, st) ∧
      (rx'.prologue, prologueEvents es) = pwmDemod cfg.levelLimit prologueInit
        (yss.flatMap fun ys => ys ++ List.replicate (L / 2 - ys.length) 0) ∧
      (rx'.rubicson, rubicsonEvents es) = pwmDemod cfg.levelLimit rubicsonInit
        (yss.flatMap fun ys => ys ++ List.replicate (L / 2 - ys.length) 0) :=
  callbackRun_zero_padded_of_tail cfg hactive ha hdiv hL (.init 0) rfl rfl (fun _ _ => rfl) blocks hlen

/-- Decimation 1 over two 8-byte blocks: each block's two outputs reach the instances
followed by two zero samples. -/
theorem callbackRun_zero_padded_decimated :
    (2 ^ (({ decodeConfig with decimationLevel := 1 } : Config).decimationLevel + 1) ∣ 8 ∧
      2 ^ (({ decodeConfig with decimationLevel := 1 } : Config).decimationLevel + 2) ≤ 8 ∧
      ∀ blk ∈ [List.replicate 8 (0 : UInt8), List.replicate 8 0], blk.length = 8) ∧
    ∃ rx' es yss st, callbackRun { decodeConfig with decimationLevel := 1 } (.init 0)
        [List.replicate 8 0, List.replicate 8 0] = some (rx', es) ∧
      lowPassCalls .zero ([List.replicate 8 0, List.replicate 8 0].map
        (referenceEnvelope ({ decodeConfig with decimationLevel := 1 } : Config).decimationLevel)) =
          some (yss, st) ∧
      (rx'.prologue, prologueEvents es) =
        pwmDemod ({ decodeConfig with decimationLevel := 1 } : Config).levelLimit prologueInit
          (yss.flatMap fun ys => ys ++ List.replicate (8 / 2 - ys.length) 0) ∧
      (rx'.rubicson, rubicsonEvents es) =
        pwmDemod ({ decodeConfig with decimationLevel := 1 } : Config).levelLimit rubicsonInit
          (yss.flatMap fun ys => ys ++ List.replicate (8 / 2 - ys.length) 0) :=
  ⟨⟨by decide, by decide, by decide⟩, callbackRun_zero_padded { decodeConfig with decimationLevel := 1 }
    rfl rfl 8 (by decide) (by decide) _ (by decide)⟩

/-! ## Across a block boundary -/

set_option maxRecDepth 100000 in
/-- **Cut into blocks, the stream is filtered late.** Fourteen full-scale samples (28
bytes `0x00`) without decimation: as one stream the reference crosses the level at
sample 12 and leaves both instances inside a pulse; cut into the smallest blocks the
pipeline takes (4 bytes), every block restarts from the history of its second-to-last
sample, the filter stays below the level, and both instances stay idle. -/
theorem callbackRun_split_lags :
    (callbackRun decodeConfig (.init 0) (List.replicate 7 [0, 0, 0, 0])).map
        (fun r => (r.1.prologue.pulseCount, r.1.rubicson.pulseCount)) = some (0, 0) ∧
      (pwmDemod defaultLevelLimit prologueInit (referenceSamples 0 (List.replicate 28 0))).1.pulseCount = 1 ∧
      (pwmDemod defaultLevelLimit rubicsonInit (referenceSamples 0 (List.replicate 28 0))).1.pulseCount = 1 := by
  decide

/-- The envelope of the first block of the lag below: 255 samples of the carrier, then
one at full scale. -/
theorem referenceEnvelope_carrier_then_full_scale :
    referenceEnvelope 0 (List.replicate 510 0x80 ++ [0, 0]) = List.replicate 255 0 ++ [32768] := by
  rw [show (510 : Nat) = 2 * 255 from rfl,
    referenceEnvelope_zero_append _ (by rw [List.length_replicate, Nat.mul_mod_right]),
    referenceEnvelope_zero_quiet, referenceEnvelope_zero_pair, iqPower_eq]
  rfl

/-- **The lag at blocks of `MINIMAL_BUF_LENGTH`.** Two 512-byte blocks, the first ending in
one full-scale sample after 255 samples of carrier, the second all carrier: the filter
call on the first block saves the history of its second-to-last sample, so the second
block's outputs stay zero and both instances are handed sample 256 as 0, where the
reference, filtering the stream as one sequence, has 996. -/
theorem callbackRun_split_lags_full_blocks :
    ∃ rx es, callbackRun decodeConfig (.init 0)
        [List.replicate 510 0x80 ++ [0, 0], List.replicate 512 0x80] = some (rx, es) ∧
      (rx.prologue, prologueEvents es) = pwmDemod defaultLevelLimit prologueInit
        (List.replicate 255 0 ++ [506] ++ List.replicate 256 0) ∧
      (rx.rubicson, rubicsonEvents es) = pwmDemod defaultLevelLimit rubicsonInit
        (List.replicate 255 0 ++ [506] ++ List.replicate 256 0) ∧
      (referenceSamples 0 (List.replicate 510 0x80 ++ [0, 0] ++ List.replicate 512 0x80)).getD 256 0 =
        996 := by
  have hquiet : referenceEnvelope 0 (List.replicate 512 0x80) = List.replicate 256 0 :=
    referenceEnvelope_zero_quiet 256
  have hlen : ∀ blk ∈ [List.replicate 510 (0x80 : UInt8) ++ [0, 0], List.replicate 512 0x80],
      4 ≤ blk.length := by
    intro blk hblk
    rw [List.mem_cons, List.mem_singleton] at hblk
    rcases hblk with rfl | rfl <;> simp only [List.length_append, List.length_replicate] <;> decide
  obtain ⟨rx, es, yss, st, hrun, hcalls, hp, hr⟩ :=
    callbackRun_decodes decodeConfig rfl rfl rfl (.init 0) rfl rfl _ hlen
  have hsplit := lowPassCalls_split_drops_last_full_blocks
  rw [List.map_cons, List.map_singleton, referenceEnvelope_carrier_then_full_scale, hquiet] at hcalls
  obtain ⟨rfl, -⟩ := Prod.mk.inj (Option.some.inj (hcalls.symm.trans hsplit.1))
  simp only [List.flatten_cons, List.flatten_nil, List.append_nil] at hp hr
  refine ⟨rx, es, hrun, hp, hr, ?_⟩
  have hxs : ∀ x ∈ List.replicate 255 0 ++ [32768] ++ List.replicate 256 0, x ≤ 32768 := by
    simp only [List.mem_append, List.mem_replicate, List.mem_singleton]
    omega
  rw [referenceSamples, referenceEnvelope_zero_append _ (by rw [List.length_append, List.length_replicate]; rfl),
    referenceEnvelope_carrier_then_full_scale, hquiet,
    ← lowPassRun_eq_referenceFilter 0 0 _ le_rfl (by decide) (by decide) hxs]
  exact hsplit.2

end Rtl433
