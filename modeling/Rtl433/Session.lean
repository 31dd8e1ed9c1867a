import Rtl433.Stream

/-!
# Rtl433 — a whole session: the raw file and the end of the stream

Two things `main` and the callback do over a whole session, beyond decoding:

* with a file named, every callback writes `len >> d` bytes of `f_buf` to it. Read back
  as little-endian `int16_t`, the file holds exactly the outputs of the consecutive
  `low_pass_filter` calls (**`callbackRun_sink`**). With decimation the demodulators read
  `f_buf` zero-padded (`callbackRun_zero_padded`), but the file is not padded;
* `sighandler` sets `do_exit` and cancels the transfer. Over every interleaving of
  blocks and signals, the session up to the first signal is the callbacks' run, and
  after it nothing is decoded, written or changed (**`asyncSession_signal`**);
* whatever the blocks and signals, the decoders only ever hold states their own runs
  from `main`'s initialisation reach (`Receiver.Sound`): both protocol instances keep
  their cursor in the 12 × 5 matrix and their flags and counter in range, and the
  analyzer's statics keep their invariant (**`asyncSession_decoders_inv`**).

`decodeLE16` is the reader of the file, `sinkWrites` the writes among a run's events,
and `asyncSession` the callback and the handler over an interleaving.
-/

namespace Rtl433

/-! ## Reading the file back

The sink writes byte `k` of `f_buf` as byte `k % 2` of cell `k / 2`, so `2n` bytes are
the first `n` cells, low byte first. -/

/-- The `int16_t` samples a reader of the raw file sees: two bytes at a time,
little-endian, a trailing odd byte dropped. -/
def decodeLE16 : List UInt8 → List Int
  | b₀ :: b₁ :: bs => toInt16 (b₀.toNat + 256 * b₁.toNat) :: decodeLE16 bs
  | _ => []

/-- The byte lists the callbacks wrote to the file, in order. -/
def sinkWrites (es : List CallbackEvent) : List (List UInt8) :=
  es.filterMap fun
    | .sink bytes => some bytes
    | _ => none

theorem decodeLE16_append {xs : List UInt8} (ys : List UInt8) {n : Nat} (h : xs.length = 2 * n) :
    decodeLE16 (xs ++ ys) = decodeLE16 xs ++ decodeLE16 ys := by
  induction n generalizing xs with
  | zero => rw [List.eq_nil_of_length_eq_zero h]; rfl
  | succ n ih =>
    match xs, h with
    | b₀ :: b₁ :: bs, h =>
      rw [List.cons_append, List.cons_append, decodeLE16, decodeLE16,
        ih (show bs.length = 2 * n by simp at h; omega), List.cons_append]

theorem toInt16_toInt16 (v : Int) : toInt16 (toInt16 v) = toInt16 v :=
  toInt16_of_mem (toInt16_mem v).1 (toInt16_mem v).2

/-- The two bytes the sink writes of a cell hold the cell's `int16_t`. -/
theorem toInt16_sinkPair (v : Int) :
    toInt16 ((UInt8.ofNat ((v % 65536).toNat / 256 ^ 0)).toNat +
      256 * (UInt8.ofNat ((v % 65536).toNat / 256 ^ 1)).toNat) = toInt16 v := by
  show toInt16 ((v % 65536).toNat / 1 % 256 + 256 * ((v % 65536).toNat / 256 % 256)) = toInt16 v
  unfold toInt16
  omega

/-- **A write reads back.** The `2n` bytes the sink writes of `f_buf` decode to its first
`n` cells. -/
theorem decodeLE16_sinkBytes (fb : Nat → Int) (n : Nat) :
    decodeLE16 (sinkBytes fb (2 * n)) = (List.range n).map fun i => toInt16 (fb (1 + i)) := by
  induction n with
  | zero => rfl
  | succ n ih =>
    have hsplit : sinkBytes fb (2 * (n + 1)) = sinkBytes fb (2 * n) ++
        [UInt8.ofNat ((fb (1 + n) % 65536).toNat / 256 ^ 0),
          UInt8.ofNat ((fb (1 + n) % 65536).toNat / 256 ^ 1)] := by
      rw [sinkBytes, sinkBytes, show 2 * (n + 1) = 2 * n + 1 + 1 by ring, List.range_succ,
        List.range_succ, List.map_append, List.map_append, List.append_assoc]
      simp [Nat.add_mod, Nat.mul_add_div]
    rw [hsplit, decodeLE16_append _ (n := n) (by simp [sinkBytes]), ih, List.range_succ,
      List.map_append]
    simp only [decodeLE16, toInt16_sinkPair, List.map_singleton]

/-! ## One callback, then a run

A callback's write is `len >> d` bytes, which for a block of whole groups is twice the
`len >> (d+1)` outputs the call stored: the write is exactly the call's outputs, and the
writes of a run are the outputs of consecutive calls. -/

theorem toInt16_lowPassRun (yPrev : Int) (xPrev : Nat) (xs : List Nat) :
    ∀ y ∈ lowPassRun yPrev xPrev xs, toInt16 y = y := by
  induction xs generalizing yPrev xPrev with
  | nil => simp [lowPassRun]
  | cons x xs ih =>
    simp only [lowPassRun, List.mem_cons, forall_eq_or_imp]
    exact ⟨toInt16_toInt16 _, ih _ _⟩

@[simp] theorem sinkWrites_append (es fs : List CallbackEvent) :
    sinkWrites (es ++ fs) = sinkWrites es ++ sinkWrites fs := List.filterMap_append _ _ _

@[simp] theorem sinkWrites_sink (bytes : List UInt8) : sinkWrites [.sink bytes] = [bytes] := rfl

@[simp] theorem sinkWrites_cancelAsync (es : List CallbackEvent) :
    sinkWrites (.cancelAsync :: es) = sinkWrites es := rfl

@[simp] theorem sinkWrites_map_prologue (es : List DemodEvent) :
    sinkWrites (es.map .prologue) = [] := by
  induction es <;> simp_all [sinkWrites]

@[simp] theorem sinkWrites_map_rubicson (es : List DemodEvent) :
    sinkWrites (es.map .rubicson) = [] := by
  induction es <;> simp_all [sinkWrites]

@[simp] theorem sinkWrites_map_analyze (es : List AnalyzeEvent) :
    sinkWrites (es.map .analyze) = [] := by
  induction es <;> simp_all [sinkWrites]

/-- The length of a block the sink round trip takes, `2^(d+1)·c` with `2 ≤ c`: the
envelope's `c` samples and the `2c` bytes the sink writes. -/
theorem blockLength_shifts {d len : Nat} (h : 2 ^ (d + 1) ∣ len ∧ 2 ^ (d + 2) ≤ len) :
    2 ^ d ∣ len / 2 ∧ len >>> d = 2 * (len >>> (d + 1)) ∧ 2 ≤ len >>> (d + 1) := by
  obtain ⟨⟨c, rfl⟩, hle⟩ := h
  have hpos : 0 < 2 ^ d := Nat.two_pow_pos _
  have e1 : 2 ^ (d + 1) * c = 2 * (2 ^ d * c) := by ring
  have e2 : 2 ^ (d + 1) * c = 2 ^ d * (2 * c) := by ring
  simp only [Nat.shiftRight_eq_div_pow, Nat.mul_div_cancel_left _ (Nat.two_pow_pos _)]
  rw [e1, Nat.mul_div_cancel_left _ (by norm_num : 0 < 2), ← e1, e2,
    Nat.mul_div_cancel_left _ hpos]
  refine ⟨Dvd.intro c rfl, rfl, ?_⟩
  rw [e2, show 2 ^ (d + 2) = 2 ^ d * 4 by rw [pow_add]; rfl] at hle
  have := Nat.le_of_mul_le_mul_left hle hpos
  omega

/-- **One callback with a file.** With no budget and no pending exit, a callback whose
`low_pass_filter` call returns writes `len >> d` bytes of the `f_buf` that call left, in
analyze mode as in decode mode. -/
theorem rtlsdrCallback_sink (cfg : Config) (hsave : cfg.saveData = true)
    (hfile : cfg.hasFile = true) {rx : Receiver} (hexit : rx.doExit = false)
    (hbudget : rx.bytesToRead = 0) (buf : Nat → UInt8) (len : Nat) {ys : List Int} {st : LpState}
    (hf : lowPassFilter ⟨rx.lpXmem, rx.filterBuffer 0⟩
      ((List.range (len >>> (cfg.decimationLevel + 1))).map
        (loadU16 (envelopeDetect buf len cfg.decimationLevel))) = some (ys, st)) :
    ∃ rx' es, rtlsdrCallback cfg rx buf len = some (rx', es) ∧ rx'.doExit = false ∧
      rx'.bytesToRead = 0 ∧ (⟨rx'.lpXmem, rx'.filterBuffer 0⟩ : LpState) = st ∧
      sinkWrites es = [sinkBytes (storeFilterOutputs rx.filterBuffer ys st.yPrev)
        (len >>> cfg.decimationLevel)] := by
  have hcut : budgetCut false 0 len = some (len, false) := by simp [budgetCut]
  simp only [rtlsdrCallback, hfile, Bool.true_or, if_true, hexit, hbudget, hcut, hf,
    Option.map_some']
  refine ⟨_, _, rfl, rfl, by simp [budgetAfter], ?_, ?_⟩ <;>
    cases ha : cfg.analyze <;>
      simp [runConsumers, ha, storeFilterOutputs, hsave, sinkWrites_append]

@[simp] theorem length_sinkBytes (fb : Nat → Int) (m : Nat) : (sinkBytes fb m).length = m := by
  simp [sinkBytes]

/-- The bytes written after a call decode to the call's outputs. -/
theorem decodeLE16_sinkBytes_storeFilterOutputs (fb : Nat → Int) {ys : List Int} (yPrev : Int)
    (hys : ∀ y ∈ ys, toInt16 y = y) :
    decodeLE16 (sinkBytes (storeFilterOutputs fb ys yPrev) (2 * ys.length)) = ys := by
  rw [decodeLE16_sinkBytes]
  refine List.ext_getElem (by simp) fun i h₁ h₂ => ?_
  simp only [List.getElem_map, List.getElem_range, storeFilterOutputs]
  rw [if_neg (by omega), if_pos (by omega), show 1 + i - 1 = i by omega,
    List.getD_eq_getElem _ _ h₂, hys _ (List.getElem_mem _)]

/-- **The file holds the filter's outputs.** With a file named, from a state with no
budget and no pending exit, over blocks each of which splits evenly into groups of
`2^(d+1)` bytes and holds at least two groups, the bytes the callbacks write, read back
two at a time as little-endian `int16_t`, are exactly the outputs of the consecutive
`low_pass_filter` calls on the blocks' envelopes, with decimation or without, in decode
or analyze mode. -/
theorem callbackRun_sink (cfg : Config) (hsave : cfg.saveData = true) (hfile : cfg.hasFile = true)
    (rx : Receiver) (hexit : rx.doExit = false) (hbudget : rx.bytesToRead = 0)
    (blocks : List (List UInt8))
    (hlen : ∀ blk ∈ blocks, 2 ^ (cfg.decimationLevel + 1) ∣ blk.length ∧
      2 ^ (cfg.decimationLevel + 2) ≤ blk.length) :
    ∃ rx' es yss st, callbackRun cfg rx blocks = some (rx', es) ∧
      lowPassCalls ⟨rx.lpXmem, rx.filterBuffer 0⟩
          (blocks.map (referenceEnvelope cfg.decimationLevel)) = some (yss, st) ∧
      decodeLE16 (sinkWrites es).flatten = yss.flatten := by
  induction blocks generalizing rx with
  | nil => exact ⟨rx, [], [], _, rfl, rfl, rfl⟩
  | cons blk blks ih =>
    obtain ⟨hdiv, hm, h2⟩ := blockLength_shifts (hlen blk (List.mem_cons_self blk blks))
    -- the block's envelope has `c` samples, and the sink writes `2c` bytes
    set c := blk.length >>> (cfg.decimationLevel + 1)
    have henv := envelope_eq_referenceEnvelope cfg.decimationLevel blk hdiv
    have hlenv : (referenceEnvelope cfg.decimationLevel blk).length = c := by
      rw [← henv, List.length_map, List.length_range]
    obtain ⟨ys, st, hf, hys⟩ :=
      lowPassFilter_of_two_le ⟨rx.lpXmem, rx.filterBuffer 0⟩ (hlenv ▸ h2)
    obtain ⟨rx₁, es₁, hcb, hexit₁, hbudget₁, hst, hw⟩ :=
      rtlsdrCallback_sink cfg hsave hfile hexit hbudget _ _ (by rw [henv]; exact hf)
    obtain ⟨rx', es, yss, st', hrun, hcalls, hfile'⟩ :=
      ih rx₁ hexit₁ hbudget₁ fun b hb => hlen b (List.mem_cons_of_mem blk hb)
    rw [hst] at hcalls
    refine ⟨rx', es₁ ++ es, ys :: yss, st', ?_, ?_, ?_⟩
    · rw [callbackRun, hcb]; simp [hrun]
    · simp [lowPassCalls, hf, hcalls]
    · have hout : ∀ y ∈ ys, toInt16 y = y := by
        rw [lowPassFilter_fst hf]; exact toInt16_lowPassRun _ _ _
      rw [sinkWrites_append, hw, List.singleton_append, List.flatten_cons,
        decodeLE16_append _ (n := ys.length) (by rw [length_sinkBytes, hm, hys, hlenv]), hfile',
        hm, ← hlenv, ← hys, decodeLE16_sinkBytes_storeFilterOutputs _ _ hout, List.flatten_cons]

/-- Decimation 1 over two 8-byte blocks, written to a file. -/
theorem callbackRun_sink_decimated :
    ∃ rx' es yss st, callbackRun
        { decodeConfig with
          decimationLevel := 1, saveData := true, hasFile := true }
        (.init 0) [List.replicate 8 0, List.replicate 8 0] = some (rx', es) ∧
      lowPassCalls ⟨(Receiver.init 0).lpXmem, (Receiver.init 0).filterBuffer 0⟩
          ([List.replicate 8 0, List.replicate 8 0].map (referenceEnvelope 1)) = some (yss, st) ∧
      decodeLE16 (sinkWrites es).flatten = yss.flatten :=
  callbackRun_sink _ rfl rfl _ rfl rfl _ (by decide)

/-! ## Signals

The handler sets `do_exit`, which the callback reads only on entry, so a signal that
arrives while a callback runs changes what it does no more than one right after it. The
session is therefore the callback and the handler over an interleaving of whole blocks
and signals. -/

/-- `sighandler(signum)`: `do_exit = 1; rtlsdr_cancel_async(dev);`. The Windows handler
does the same on `CTRL_C_EVENT` and ignores other events. -/
def sighandler (rx : Receiver) : Receiver × List CallbackEvent :=
  ({ rx with doExit := true }, [.cancelAsync])

/-- What reaches the process in async mode: a block for the callback, or a signal. -/
inductive AsyncInput where
  | block (bytes : List UInt8)
  | signal
deriving DecidableEq, Repr

/-- The callback and the signal handler over an interleaving of blocks and signals. -/
def asyncSession (cfg : Config) (rx : Receiver) :
    List AsyncInput → Option (Receiver × List CallbackEvent)
  | [] => some (rx, [])
  | .block blk :: ins => do
    let r ← rtlsdrCallback cfg rx (fun k => blk.getD k 0) blk.length
    let q ← asyncSession cfg r.1 ins
    pure (q.1, r.2 ++ q.2)
  | .signal :: ins => do
    let q ← asyncSession cfg (sighandler rx).1 ins
    pure (q.1, (sighandler rx).2 ++ q.2)

/-- Blocks alone are the callbacks' run. -/
theorem asyncSession_blocks (cfg : Config) (rx : Receiver) (blocks : List (List UInt8))
    (ins : List AsyncInput) :
    asyncSession cfg rx (blocks.map .block ++ ins) =
      (callbackRun cfg rx blocks).bind fun r =>
        (asyncSession cfg r.1 ins).map fun q => (q.1, r.2 ++ q.2) := by
  induction blocks generalizing rx with
  | nil => cases h : asyncSession cfg rx ins <;> simp [callbackRun, h]
  | cons blk blks ih =>
    rw [List.map_cons, List.cons_append, asyncSession, callbackRun]
    simp only [ih]
    cases rtlsdrCallback cfg rx (fun k => blk.getD k 0) blk.length with
    | none => rfl
    | some r =>
      cases h : callbackRun cfg r.1 blks with
      | none => simp [h]
      | some q => cases h' : asyncSession cfg q.1 ins <;> simp [h, h']

/-- Once `do_exit` is set, a callback changes nothing and prints nothing. -/
theorem rtlsdrCallback_exited (cfg : Config) {rx : Receiver} (h : rx.doExit = true)
    (buf : Nat → UInt8) (len : Nat) : rtlsdrCallback cfg rx buf len = some (rx, []) := by
  unfold rtlsdrCallback
  split <;> simp [budgetCut, h]

/-- **The run lemma after an exit**, by induction on what arrives: every block is
dropped, and every signal only calls `rtlsdr_cancel_async` again. -/
theorem asyncSession_exited (cfg : Config) {rx : Receiver} (h : rx.doExit = true)
    (ins : List AsyncInput) :
    asyncSession cfg rx ins = some (rx, List.replicate (ins.count .signal) .cancelAsync) := by
  have hsig : (sighandler rx).1 = rx := by cases rx; simp_all [sighandler]
  induction ins with
  | nil => rfl
  | cons i ins ih =>
    cases i with
    | block blk => simp [asyncSession, rtlsdrCallback_exited cfg h, ih]
    | signal =>
      rw [asyncSession, hsig, ih]
      simp [sighandler, List.count_cons, List.replicate_succ]

/-- **A signal ends decoding.** For every interleaving of blocks and signals with a
signal in it, the session up to the first signal is the callbacks' run on the blocks
before it; after it, whatever arrives, the receiver stays as that run left it with
`do_exit` set, and the only output is one `rtlsdr_cancel_async` per signal. -/
theorem asyncSession_signal (cfg : Config) (rx : Receiver) (blocks : List (List UInt8))
    (rest : List AsyncInput) :
    asyncSession cfg rx (blocks.map .block ++ .signal :: rest) =
      (callbackRun cfg rx blocks).map fun r =>
        ({ r.1 with doExit := true },
          r.2 ++ List.replicate (rest.count .signal + 1) .cancelAsync) := by
  rw [asyncSession_blocks]
  cases callbackRun cfg rx blocks with
  | none => rfl
  | some r =>
    simp [asyncSession, sighandler, asyncSession_exited cfg
      (show ({ r.1 with doExit := true } : Receiver).doExit = true from rfl),
      List.replicate_succ]

/-! ## What every session keeps

Each callback runs `pwm_demod` on both instances, or `pwm_analyze`, from the states the
callbacks before it left; the handler touches neither. So the decoders' states are those
of runs from `main`'s initialisation, whatever arrives. -/

/-- The decoders as only runs from `main`'s initialisation leave them: both protocol
instances reachable from theirs, the analyzer's statics within their invariant. -/
structure Receiver.Sound (levelLimit : Int) (rx : Receiver) : Prop where
  prologue : Reachable levelLimit prologueInit rx.prologue
  rubicson : Reachable levelLimit rubicsonInit rx.rubicson
  analyzer : rx.analyzer.Inv

theorem Receiver.sound_init (levelLimit : Int) (bytesToRead : Nat) :
    (Receiver.init bytesToRead).Sound levelLimit :=
  ⟨.init, .init, AnalyzerState.inv_init⟩

section Sound

variable {cfg : Config} {rx rx' : Receiver}

theorem sound_runConsumers (h : rx.Sound cfg.levelLimit) (samples : List Int) :
    (runConsumers cfg rx samples).1.Sound cfg.levelLimit := by
  unfold runConsumers; split
  · exact ⟨h.prologue, h.rubicson, (inv_pwmAnalyze h.analyzer _ _).1⟩
  · exact ⟨reachable_pwmDemod h.prologue _, reachable_pwmDemod h.rubicson _, h.analyzer⟩

/-- **The step lemma for a block.** A callback runs the decoders on from where they
were, and changes them in no other way. -/
theorem sound_rtlsdrCallback (h : rx.Sound cfg.levelLimit) {buf : Nat → UInt8} {len : Nat}
    {es : List CallbackEvent} (hcb : rtlsdrCallback cfg rx buf len = some (rx', es)) :
    rx'.Sound cfg.levelLimit := by
  unfold rtlsdrCallback at hcb
  split at hcb
  · split at hcb
    · cases hcb; exact h
    · obtain ⟨_, -, he⟩ := Option.map_eq_some'.mp hcb
      cases he
      refine ⟨(sound_runConsumers ?_ _).prologue, (sound_runConsumers ?_ _).rubicson,
        (sound_runConsumers ?_ _).analyzer⟩ <;> exact ⟨h.prologue, h.rubicson, h.analyzer⟩
  · cases hcb; exact h

/-- **The run lemma**, by induction on what arrives: blocks by the step lemma, signals
because the handler only sets `do_exit`. -/
theorem sound_asyncSession (h : rx.Sound cfg.levelLimit) {ins : List AsyncInput}
    {es : List CallbackEvent} (hs : asyncSession cfg rx ins = some (rx', es)) :
    rx'.Sound cfg.levelLimit := by
  induction ins generalizing rx es with
  | nil => cases hs; exact h
  | cons i ins ih =>
    cases i with
    | block blk =>
      simp only [asyncSession, Option.bind_eq_bind, Option.bind_eq_some, Option.pure_def,
        Option.some.injEq] at hs
      obtain ⟨r, hr, q, hq, rfl, -⟩ := hs
      exact ih (sound_rtlsdrCallback h hr) hq
    | signal =>
      simp only [asyncSession, Option.bind_eq_bind, Option.bind_eq_some, Option.pure_def,
        Option.some.injEq] at hs
      obtain ⟨q, hq, rfl, -⟩ := hs
      exact ih (show (sighandler rx).1.Sound cfg.levelLimit from
        ⟨h.prologue, h.rubicson, h.analyzer⟩) hq

end Sound

/-- **The decoders stay in range over every session.** For every configuration, every
`-n` budget and every interleaving in async mode of blocks of any lengths and signals,
after any prefix of the session that is defined, both protocol instances satisfy
`ProtocolState.Inv` (their cursor in the 12 × 5 matrix, their flags in `{0, 1}`, their
counter in `[0, reset_limit]`) and the analyzer's statics theirs. -/
theorem asyncSession_decoders_inv (cfg : Config) (bytesToRead : Nat) (ins : List AsyncInput)
    {rx : Receiver} {es : List CallbackEvent}
    (hs : asyncSession cfg (.init bytesToRead) ins = some (rx, es)) :
    rx.prologue.Inv ∧ rx.rubicson.Inv ∧ rx.analyzer.Inv := by
  have h := sound_asyncSession (Receiver.sound_init cfg.levelLimit bytesToRead) hs
  exact ⟨(inv_of_reachable (by decide) h.prologue).1, (inv_of_reachable (by decide) h.rubicson).1,
    h.analyzer⟩

set_option maxRecDepth 10000 in
/-- A block of fourteen full-scale samples, then a signal, in decode mode: the filter
crosses the level at sample 12 and the prologue instance is inside a pulse. -/
theorem asyncSession_decoders_inv_block_signal :
    ∃ rx es, asyncSession decodeConfig (.init 0) [.block (List.replicate 28 0), .signal] =
      some (rx, es) ∧ rx.prologue.pulseCount = 1 ∧ rx.prologue.Inv ∧ rx.rubicson.Inv ∧ rx.analyzer.Inv := by
  obtain ⟨rx, es, hs, hp⟩ : ∃ rx es, asyncSession decodeConfig (.init 0)
      [.block (List.replicate 28 0), .signal] = some (rx, es) ∧ rx.prologue.pulseCount = 1 :=
    ⟨_, _, rfl, rfl⟩
  exact ⟨rx, es, hs, hp, asyncSession_decoders_inv decodeConfig 0 _ hs⟩

end Rtl433
