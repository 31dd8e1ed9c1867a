import Rtl433.Envelope
import Rtl433.Filter
import Rtl433.Demod
import Rtl433.Analyze

/-!
# Rtl433 — the block callback `rtlsdr_callback` and the drivers around it

Every block of raw IQ bytes — an async transfer of `out_block_size` bytes, or a
131072-byte chunk in replay mode — goes through `rtlsdr_callback`:

1. `budgetCut` — a block after `do_exit` is dropped; a `-n` budget smaller than the
   block cuts it and requests cancellation;
2. `envelope_detect` in place over the `len` bytes, then `low_pass_filter` over
   `len >> (d+1)` envelope samples into `f_buf`;
3. `runConsumers` — `pwm_analyze`, or `pwm_demod` on `prologue` then `rubicson`, each
   handed the first `len / 2` samples of `f_buf`;
4. the raw sink gets `len >> d` bytes of `f_buf`, and `budgetAfter` charges the budget.

`callbackRun` feeds a list of blocks, `replayChunks` the ones the `-r` loop of `main`
reads, and `syncLoop` is the `-S` loop, which shares the budget gate and writes the raw
bytes. `DecodeStep` says what one callback in decode mode does (`rtlsdrCallback_decodeStep`),
and `callbackRun_of_decodeStep` turns it into what a run over blocks does.
Device setup, option parsing and the `fwrite` failure path are not modelled.
-/

namespace Rtl433

/-! ## State, options and output -/

/-- The options `main` fixes before streaming: `-l`, `-c`, `-a`, whether a sink was
named (`save_data`) and whether it is open (`demod->file`). -/
structure Config where
  levelLimit : Int
  decimationLevel : Nat
  analyze : Bool
  saveData : Bool
  hasFile : Bool
deriving DecidableEq, Repr

/-- What the callback reads and writes: the globals `do_exit`, `bytes_to_read` and
`lp_xmem[0]`, `demod->filter_buffer` (`f_buf` is `filter_buffer + FILTER_ORDER`), the
two protocol instances and the statics of `pwm_analyze`. -/
structure Receiver where
  doExit : Bool
  bytesToRead : Nat
  lpXmem : Nat
  filterBuffer : Nat → Int
  prologue : ProtocolState
  rubicson : ProtocolState
  analyzer : AnalyzerState

/-- The state `main` starts streaming from, with `bytes_to_read` as `-n` left it. -/
def Receiver.init (bytesToRead : Nat) : Receiver :=
  { doExit := false, bytesToRead, lpXmem := 0, filterBuffer := fun _ => 0,
    prologue := prologueInit, rubicson := rubicsonInit, analyzer := .init }

/-- `-n N`: `bytes_to_read = (uint32_t)atof(optarg) * 2`, in `uint32_t`. -/
def nOption (n : Nat) : Nat := wrap32 (n * 2)

/-- What a callback does beyond its state. -/
inductive CallbackEvent where
  /-- `rtlsdr_cancel_async(dev)` after the budget cut. -/
  | cancelAsync
  | prologue (e : DemodEvent)
  | rubicson (e : DemodEvent)
  | analyze (e : AnalyzeEvent)
  /-- `fwrite(demod->f_buf, 1, len >> d, demod->file)`. -/
  | sink (bytes : List UInt8)
deriving DecidableEq, Repr

/-- The events of the `prologue` instance's `pwm_demod` calls among a callback's events. -/
def prologueEvents (es : List CallbackEvent) : List DemodEvent :=
  es.filterMap fun
    | .prologue e => some e
    | _ => none

/-- The events of the `rubicson` instance's `pwm_demod` calls among a callback's events. -/
def rubicsonEvents (es : List CallbackEvent) : List DemodEvent :=
  es.filterMap fun
    | .rubicson e => some e
    | _ => none

@[simp] theorem prologueEvents_append (es fs : List CallbackEvent) :
    prologueEvents (es ++ fs) = prologueEvents es ++ prologueEvents fs := List.filterMap_append _ _ _

@[simp] theorem rubicsonEvents_append (es fs : List CallbackEvent) :
    rubicsonEvents (es ++ fs) = rubicsonEvents es ++ rubicsonEvents fs := List.filterMap_append _ _ _

@[simp] theorem prologueEvents_map_prologue (l : List DemodEvent) :
    prologueEvents (l.map .prologue) = l := by
  induction l with
  | nil => rfl
  | cons e l ih => exact congrArg (e :: ·) ih

@[simp] theorem rubicsonEvents_map_rubicson (l : List DemodEvent) :
    rubicsonEvents (l.map .rubicson) = l := by
  induction l with
  | nil => rfl
  | cons e l ih => exact congrArg (e :: ·) ih

@[simp] theorem prologueEvents_map_rubicson (l : List DemodEvent) :
    prologueEvents (l.map .rubicson) = [] := by
  induction l with
  | nil => rfl
  | cons e l ih => exact ih

@[simp] theorem rubicsonEvents_map_prologue (l : List DemodEvent) :
    rubicsonEvents (l.map .prologue) = [] := by
  induction l with
  | nil => rfl
  | cons e l ih => exact ih

@[simp] theorem prologueEvents_sink (bytes : List UInt8) : prologueEvents [.sink bytes] = [] := rfl

@[simp] theorem rubicsonEvents_sink (bytes : List UInt8) : rubicsonEvents [.sink bytes] = [] := rfl

/-! ## The budget -/

/-- The gate at the top of the callback, and of each round of the sync loop: `none`
when `do_exit` is set; otherwise the length to process, cut to `bytes_to_read` when a
budget is set and smaller than the block, with the flag that cancellation follows. -/
def budgetCut (doExit : Bool) (bytesToRead len : Nat) : Option (Nat × Bool) :=
  if doExit then none
  else if 0 < bytesToRead ∧ bytesToRead < len then some (bytesToRead, true)
  else some (len, false)

/-- `if (bytes_to_read > 0) bytes_to_read -= len;`, in `uint32_t`. -/
def budgetAfter (bytesToRead len : Nat) : Nat :=
  if 0 < bytesToRead then wrap32 (bytesToRead - len) else bytesToRead

/-- The bytes the callback runs the pipeline over, block by block, from the budget state
`(do_exit, bytes_to_read)`; dropped blocks process nothing. -/
def budgetRun (doExit : Bool) (bytesToRead : Nat) : List Nat → List Nat
  | [] => []
  | len :: lens =>
    match budgetCut doExit bytesToRead len with
    | none => budgetRun doExit bytesToRead lens
    | some (l, cut) => l :: budgetRun cut (budgetAfter bytesToRead l) lens

/-! ## The pipeline -/

/-- `low_pass_filter`'s writes: `y_buf[i]` is `filter_buffer[1 + i]`, and the carried
`y_buf[-1]` is `filter_buffer[0]`. -/
def storeFilterOutputs (fb : Nat → Int) (ys : List Int) (yPrev : Int) : Nat → Int :=
  fun k => if k = 0 then yPrev else if k - 1 < ys.length then ys.getD (k - 1) 0 else fb k

/-- The first `len / 2` samples of `f_buf`, which the consumers are handed. -/
def consumerSamples (fb : Nat → Int) (len : Nat) : List Int :=
  (List.range (len / 2)).map fun i => fb (1 + i)

/-- The first `m` bytes of `f_buf`: its `int16_t` cells, little-endian. -/
def sinkBytes (fb : Nat → Int) (m : Nat) : List UInt8 :=
  (List.range m).map fun k => UInt8.ofNat ((fb (1 + k / 2) % 65536).toNat / 256 ^ (k % 2))

/-- The analyzer, or `pwm_demod` on `prologue` and then on `rubicson`. -/
def runConsumers (cfg : Config) (rx : Receiver) (samples : List Int) :
    Receiver × List CallbackEvent :=
  if cfg.analyze then
    let r := pwmAnalyze cfg.levelLimit rx.analyzer samples
    ({ rx with analyzer := r.1 }, r.2.map .analyze)
  else
    let p := pwmDemod cfg.levelLimit rx.prologue samples
    let q := pwmDemod cfg.levelLimit rx.rubicson samples
    ({ rx with prologue := p.1, rubicson := q.1 }, p.2.map .prologue ++ q.2.map .rubicson)

/-- `rtlsdr_callback(buf, len, demod)`. `none` when `low_pass_filter` gets fewer than
`FILTER_ORDER + 1` samples: its history copy then reads `x_buf[len-1-FILTER_ORDER]`, an
index that wraps in `uint32_t`. -/
def rtlsdrCallback (cfg : Config) (rx : Receiver) (buf : Nat → UInt8) (len : Nat) :
    Option (Receiver × List CallbackEvent) :=
  if cfg.hasFile || !cfg.saveData then
    match budgetCut rx.doExit rx.bytesToRead len with
    | none => some (rx, [])
    | some (len, cut) =>
      let env := envelopeDetect buf len cfg.decimationLevel
      let xs := (List.range (len >>> (cfg.decimationLevel + 1))).map (loadU16 env)
      (lowPassFilter ⟨rx.lpXmem, rx.filterBuffer 0⟩ xs).map fun (ys, st) =>
        let fb := storeFilterOutputs rx.filterBuffer ys st.yPrev
        let r := runConsumers cfg { rx with lpXmem := st.xmem, filterBuffer := fb }
          (consumerSamples fb len)
        ({ r.1 with doExit := cut, bytesToRead := budgetAfter rx.bytesToRead len },
          (if cut then [.cancelAsync] else []) ++ r.2 ++
            (if cfg.saveData then [.sink (sinkBytes fb (len >>> cfg.decimationLevel))] else []))
  else some (rx, [])

/-- The callback on each block in turn. -/
def callbackRun (cfg : Config) (rx : Receiver) :
    List (List UInt8) → Option (Receiver × List CallbackEvent)
  | [] => some (rx, [])
  | blk :: blks => do
    let r ← rtlsdrCallback cfg rx (fun k => blk.getD k 0) blk.length
    let q ← callbackRun cfg r.1 blks
    pure (q.1, r.2 ++ q.2)

/-- The `-S` loop of `main` over the successive `n_read` of `rtlsdr_read_sync`: the bytes
each round writes. A round after `do_exit` is not run, and a short read ends the loop
after its write. -/
def syncLoop (outBlockSize : Nat) : Bool → Nat → List Nat → List Nat
  | _, _, [] => []
  | doExit, bytesToRead, nRead :: reads =>
    match budgetCut doExit bytesToRead nRead with
    | none => []
    | some (n, cut) =>
      if n < outBlockSize then [n]
      else n :: syncLoop outBlockSize cut (budgetAfter bytesToRead n) reads

/-- The replay loop of `main` (`-r`), for at most `fuel` rounds:
`fread(test_mode_buf, 131072, 1, test_mode)` returns 1 while a whole chunk is left, and
the loop stops at the first short read. -/
def replayLoop : Nat → List UInt8 → List (List UInt8)
  | 0, _ => []
  | fuel + 1, file =>
    if replayChunkLength ≤ file.length then
      file.take replayChunkLength :: replayLoop fuel (file.drop replayChunkLength)
    else []

/-- The chunks `main` hands `rtlsdr_callback` when replaying `file`: every round consumes
a whole chunk, so `file.length` rounds are enough. -/
def replayChunks (file : List UInt8) : List (List UInt8) := replayLoop file.length file

/-! ## A budget that runs out on a block boundary

`budgetRun` is the budget logic of the callback on its own; `Budget` ties it to what a
run of callbacks writes. When the budget runs out exactly at the end of a block, the
strict test `bytes_to_read < len` lets the block through uncut, the budget drops to 0 —
the value meaning "no budget" — and everything after is processed. -/

/-- **A budget that runs out on a block boundary becomes unlimited.** With `-n 65536`
(131072 bytes) and two replay chunks of 131072 bytes, the first chunk is not cut, the
budget drops to 0, and both chunks are processed; `-n 2147483648` doubles to 0 in
`uint32_t`, no budget at all; and the `-S` loop with `-n 131072` and 262144-byte reads
writes every read. -/
theorem budget_runs_out_on_boundary :
    budgetRun false (nOption 65536) [131072, 131072] = [131072, 131072] ∧
      budgetAfter (nOption 65536) 131072 = 0 ∧ nOption 2147483648 = 0 ∧
      syncLoop 262144 false (nOption 131072) [262144, 262144, 262144] =
        [262144, 262144, 262144] := by
  decide

/-! ## One callback in decode mode

`DecodeStep` says once what a callback does when it runs: the history its
`low_pass_filter` call returns is kept, the outputs are stored from `f_buf[0]` on, and
both instances run over the first `len / 2` cells of `f_buf` — the call's outputs, then
cells earlier calls left (`consumerSamples_storeFilterOutputs`). The run lemma
`callbackRun_of_decodeStep` is the one induction over blocks built on it. -/

theorem map_range_getD (ys : List Int) : (List.range ys.length).map (fun i => ys.getD i 0) = ys :=
  List.ext_getElem (by simp) fun i _ h => by
    rw [List.getElem_map, List.getElem_range, List.getD_eq_getElem _ _ h]

/-- The consumers are handed the first `len / 2` cells of `f_buf`: the call's outputs,
then the cells past them, which the call did not write. -/
theorem consumerSamples_storeFilterOutputs (fb : Nat → Int) {ys : List Int} (yPrev : Int)
    {len : Nat} (h : ys.length ≤ len / 2) :
    consumerSamples (storeFilterOutputs fb ys yPrev) len =
      ys ++ (List.range (len / 2 - ys.length)).map fun i => fb (1 + ys.length + i) := by
  rw [consumerSamples, show len / 2 = ys.length + (len / 2 - ys.length) by omega, List.range_add,
    List.map_append, List.map_map, Nat.add_sub_cancel_left]
  congr 1
  · conv_rhs => rw [← map_range_getD ys]
    refine List.map_congr_left fun i hi => ?_
    have hi : i < ys.length := List.mem_range.mp hi
    simp [storeFilterOutputs, hi]
  · refine List.map_congr_left fun i _ => ?_
    simp [storeFilterOutputs, Nat.add_assoc]

/-- What one callback in decode mode does, given the outputs `ys` and the history `st` of
its `low_pass_filter` call. -/
structure DecodeStep (cfg : Config) (rx : Receiver) (len : Nat) (ys : List Int) (st : LpState)
    (rx' : Receiver) (es : List CallbackEvent) : Prop where
  doExit : rx'.doExit = false
  bytesToRead : rx'.bytesToRead = 0
  history : (⟨rx'.lpXmem, rx'.filterBuffer 0⟩ : LpState) = st
  filterBuffer : rx'.filterBuffer = storeFilterOutputs rx.filterBuffer ys st.yPrev
  prologue : (rx'.prologue, prologueEvents es) =
    pwmDemod cfg.levelLimit rx.prologue (consumerSamples rx'.filterBuffer len)
  rubicson : (rx'.rubicson, rubicsonEvents es) =
    pwmDemod cfg.levelLimit rx.rubicson (consumerSamples rx'.filterBuffer len)

/-- **One callback in decode mode.** With no budget and no pending exit, a callback whose
`low_pass_filter` call returns does what `DecodeStep` says. -/
theorem rtlsdrCallback_decodeStep (cfg : Config) (hactive : (cfg.hasFile || !cfg.saveData) = true)
    (ha : cfg.analyze = false) {rx : Receiver} (hexit : rx.doExit = false)
    (hbudget : rx.bytesToRead = 0) (buf : Nat → UInt8) (len : Nat) {ys : List Int} {st : LpState}
    (hf : lowPassFilter ⟨rx.lpXmem, rx.filterBuffer 0⟩
      ((List.range (len >>> (cfg.decimationLevel + 1))).map
        (loadU16 (envelopeDetect buf len cfg.decimationLevel))) = some (ys, st)) :
    ∃ rx' es, rtlsdrCallback cfg rx buf len = some (rx', es) ∧ DecodeStep cfg rx len ys st rx' es := by
  have hcut : budgetCut false 0 len = some (len, false) := by simp [budgetCut]
  simp only [rtlsdrCallback, if_pos hactive, hexit, hbudget, hcut, hf, Option.map_some']
  refine ⟨_, _, rfl, rfl, by simp [budgetAfter], ?_, ?_, ?_, ?_⟩ <;>
    cases cfg.saveData <;> simp [runConsumers, ha, storeFilterOutputs]

/-- **The run lemma.** If from every state of an invariant `P` the callback on each
block does what `DecodeStep` says for its filter call on `env blk`, keeps `P`, and hands the
instances `pad ys` for the call's outputs `ys`, then a run over the blocks drives both
instances as one `pwm_demod` over the padded outputs of consecutive filter calls. -/
theorem callbackRun_of_decodeStep (cfg : Config) (P : Receiver → Prop)
    (env : List UInt8 → List Nat) (pad : List Int → List Int) (blocks : List (List UInt8))
    (hstep : ∀ rx, P rx → ∀ blk ∈ blocks, ∃ ys st rx₁ es₁,
      lowPassFilter ⟨rx.lpXmem, rx.filterBuffer 0⟩ (env blk) = some (ys, st) ∧
      rtlsdrCallback cfg rx (fun k => blk.getD k 0) blk.length = some (rx₁, es₁) ∧
      DecodeStep cfg rx blk.length ys st rx₁ es₁ ∧ P rx₁ ∧
      consumerSamples rx₁.filterBuffer blk.length = pad ys)
    (rx : Receiver) (hP : P rx) :
    ∃ rx' es yss st, callbackRun cfg rx blocks = some (rx', es) ∧
      lowPassCalls ⟨rx.lpXmem, rx.filterBuffer 0⟩ (blocks.map env) = some (yss, st) ∧
      (rx'.prologue, prologueEvents es) = pwmDemod cfg.levelLimit rx.prologue (yss.flatMap pad) ∧
      (rx'.rubicson, rubicsonEvents es) = pwmDemod cfg.levelLimit rx.rubicson (yss.flatMap pad) := by
  induction blocks generalizing rx with
  | nil => exact ⟨rx, [], [], _, rfl, rfl, rfl, rfl⟩
  | cons blk blks ih =>
    obtain ⟨ys, st, rx₁, es₁, hf, hcb, hdec, hP₁, hsamples⟩ :=
      hstep rx hP blk (List.mem_cons_self blk blks)
    obtain ⟨rx', es, yss, st', hrun, hcalls, hp, hq⟩ :=
      ih (fun r hr b hb => hstep r hr b (List.mem_cons_of_mem blk hb)) rx₁ hP₁
    rw [hdec.history] at hcalls
    refine ⟨rx', es₁ ++ es, ys :: yss, st', ?_, ?_, ?_, ?_⟩
    · rw [callbackRun, hcb]; simp [hrun]
    · simp [lowPassCalls, hf, hcalls]
    · rw [List.flatMap_cons, pwmDemod_append, ← hsamples, ← hdec.prologue, ← hp, prologueEvents_append]
    · rw [List.flatMap_cons, pwmDemod_append, ← hsamples, ← hdec.rubicson, ← hq, rubicsonEvents_append]

/-! ## What replay processes

The replay loop hands the callback the file's whole chunks in order; the bytes after the
last whole chunk go to the `fread` that fails and are never processed. The count the loop
prints at the end ("issued %d packets") is the number of chunks. -/

theorem replayLoop_chunks (fuel : Nat) (file : List UInt8)
    (hfuel : file.length / replayChunkLength ≤ fuel) :
    (replayLoop fuel file).flatten = file.take (file.length / replayChunkLength * replayChunkLength) ∧
      (replayLoop fuel file).length = file.length / replayChunkLength ∧
      ∀ c ∈ replayLoop fuel file, c.length = replayChunkLength := by
  induction fuel generalizing file with
  | zero =>
    have h0 : file.length / replayChunkLength = 0 := Nat.le_zero.mp hfuel
    simp [replayLoop, h0]
  | succ fuel ih =>
    unfold replayLoop
    split
    · rename_i hle
      have hdiv : file.length / replayChunkLength =
          (file.drop replayChunkLength).length / replayChunkLength + 1 := by
        simp only [List.length_drop, replayChunkLength] at hle ⊢; omega
      obtain ⟨hflat, hcount, hlen⟩ := ih (file.drop replayChunkLength) (by omega)
      refine ⟨?_, ?_, ?_⟩
      · rw [List.flatten_cons, hflat, hdiv, Nat.succ_mul, Nat.add_comm, List.take_add]
      · rw [List.length_cons, hcount, hdiv]
      · rintro c (_ | ⟨_, hc⟩)
        · simpa using hle
        · exact hlen c hc
    · rename_i hlt
      have h0 : file.length / replayChunkLength = 0 := Nat.div_eq_of_lt (by omega)
      simp [h0]

/-- **Replay processes the file's whole chunks and nothing else.** The callback gets the
consecutive 131072-byte chunks of the file, as many as fit; the bytes after the last
whole chunk are never processed. -/
theorem replayChunks_spec (file : List UInt8) :
    (replayChunks file).flatten = file.take (file.length / replayChunkLength * replayChunkLength) ∧
      (replayChunks file).length = file.length / replayChunkLength ∧
      ∀ c ∈ replayChunks file, c.length = replayChunkLength :=
  replayLoop_chunks _ file (Nat.div_le_self _ _)

end Rtl433
