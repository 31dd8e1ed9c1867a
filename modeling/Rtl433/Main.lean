import Rtl433.Options
import Rtl433.Session
import Rtl433.Bounds
/-!
# Rtl433 — `main`

After its options, `main` opens the device, tunes it, opens the file it writes samples
to, and streams in one of three modes: replaying a file (`-r`), reading in sync mode
(`-S`), or letting `rtlsdr_read_async` call `rtlsdr_callback`. The device, the file
system and the user answer it; `Host` collects those answers and `MainEvent` what `main`
does with them.

* **`main`** — the whole of `main(argc, argv)`, `none` where the C code is undefined;
* **`syncRun`** — the `-S` loop with the bytes it reads and writes and the signals that
  reach it; **`syncRun_syncLoop`** shows it writes, read after read, the lengths
  `syncLoop` computes, so the budget results about `syncLoop` hold of `main`;
* **`main_sync_signal`** — a signal ends the `-S` loop after the reads before it, and
  `main` closes the device and exits with the last read's result, or the buffer reset's;
* **`main_eq_mainWith`** — `argc <= optind-1` never holds, since `argv[optind..]` is a
  part of `argv`: a missing file name never reaches `usage()`, and `main` runs without
  writing samples;
* **`main_commandLine`** — on the command line of a valid setting, `main` runs with that
  setting and with the first operand as its file name;
* **`main_usage`** — `main` exits through `usage()`, whatever the host, exactly when
  `getopt` returns `'?'` after options the loop takes;
* **`main_sink_unopened`** — a file name that cannot be opened ends `main` after tuning,
  with the exit status of the last tuner call;
* **`main_sync_without_file`** — `-S` without a file name is undefined exactly when the
  first thing that reaches the loop is a successful read, written to a null `FILE*`.

The theorems about a whole run of `main` are stated on `commandLine o operands` for a
valid setting `o`: its argument texts are integers and tenths, which `atof` converts
exactly, so `main` runs with `o` itself.
-/

namespace Rtl433

/-! ## The host and what `main` does -/

/-- `DEFAULT_ASYNC_BUF_NUMBER`. -/
def defaultAsyncBufNumber : Nat := 32

/-- What reaches `main` while its `-S` loop runs: the answer of an `rtlsdr_read_sync`
call (its result and the bytes read, at most `out_block_size` of them), or a signal. The
handler only writes `do_exit`, which a round reads only before it starts, so a signal
during a round acts as one right after it: the signals stand between rounds. -/
inductive SyncInput where
  | read (r : Int) (bytes : List UInt8)
  | signal
deriving DecidableEq, Repr

/-- What the device library, the file system and the user answer `main`. The results of
`rtlsdr_set_sample_rate` and `rtlsdr_set_center_freq` are left out: only warnings read
them before the next call overwrites `r`. -/
structure Host where
  /-- `rtlsdr_get_device_count()`. -/
  deviceCount : Nat
  /-- `rtlsdr_open(&dev, dev_index)`. -/
  openResult : Int
  /-- `rtlsdr_set_tuner_gain_mode(dev, ...)`. -/
  gainModeResult : Int
  /-- `rtlsdr_set_tuner_gain(dev, gain)`. -/
  gainResult : Int
  /-- Whether `fopen(filename, "wb")` succeeds. -/
  sinkOpens : Bool
  /-- The bytes of the file `-r` names; `none` when `fopen` fails. -/
  replayFile : Option (List UInt8)
  /-- `rtlsdr_reset_buffer(dev)`. -/
  resetResult : Int
  /-- What reaches `main` while its `-S` loop runs. -/
  syncInputs : List SyncInput
  /-- What reaches the process while `rtlsdr_read_async` runs. -/
  asyncInputs : List AsyncInput
  /-- What `rtlsdr_read_async` returns. -/
  asyncResult : Int

/-- The calls `main` makes, and what its callbacks do. -/
inductive MainEvent where
  | openDevice (index : Nat)
  | setSampleRate (rate : Nat)
  | setCenterFreq (freq : Nat)
  | setTunerGainMode (manual : Bool)
  | setTunerGain (gain : Int)
  | resetBuffer
  | readSync (len : Nat)
  /-- `fwrite(buffer, 1, n_read, demod->file)` in sync mode. -/
  | write (bytes : List UInt8)
  | readAsync (bufNum len : Nat)
  /-- What a callback or the signal handler does. -/
  | callback (e : CallbackEvent)
  | closeDevice
deriving DecidableEq, Repr

/-- How `main` ends: what it did, and its exit status, `none` while it still runs when
the host's answers end. -/
structure MainRun where
  events : List MainEvent
  status : Option Nat
deriving DecidableEq, Repr

/-- `return r >= 0 ? r : -r;`, undefined for `INT_MIN`. -/
def exitStatus (r : Int) : Option Nat := if r = -2 ^ 31 then none else some r.natAbs

/-- The bytes written in sync mode. -/
def writtenBytes (es : List MainEvent) : List (List UInt8) :=
  es.filterMap fun | .write bytes => some bytes | _ => none

/-! ## The three modes -/

/-- The `-S` loop from `do_exit`, `bytes_to_read` and `r`, over what reaches `main` in
turn, until `do_exit`, a failed read or a short read. A successful read is cut to the
budget and written to `demod->file`; `sink` is whether a file is open, since `fwrite` to a
null `FILE*` is undefined. A signal runs `sighandler`: it sets `do_exit` and calls
`rtlsdr_cancel_async`. The events, and the `r` the loop ends with, `none` while it still runs
when the inputs end. -/
def syncRun (outBlock : Nat) (sink : Bool) (doExit : Bool) (bytesToRead : Nat) (r : Int) :
    List SyncInput → Option (List MainEvent × Option Int)
  | [] => some ([], if doExit then some r else none)
  | .signal :: ins =>
    if doExit then some ([], some r)
    else (syncRun outBlock sink true bytesToRead r ins).map fun q =>
      (.callback .cancelAsync :: q.1, q.2)
  | .read r' bytes :: ins =>
    match budgetCut doExit bytesToRead bytes.length with
    | none => some ([], some r)
    | some (n, cut) =>
      if r' < 0 then some ([.readSync outBlock], some r')
      else if sink then
        let ev := [MainEvent.readSync outBlock, .write (bytes.take n)]
        if n < outBlock then some (ev, some r')
        else (syncRun outBlock sink cut (budgetAfter bytesToRead n) r' ins).map
          fun q => (ev ++ q.1, q.2)
      else none

/-- The configuration the callbacks run with: `-l`, `-c`, `-a`, and whether a file takes
the samples. When one is named it is open by then, or `main` has left. -/
def mainConfig (o : Options) (saveData : Bool) : Config :=
  { levelLimit := o.levelLimit, decimationLevel := o.decimationLevel.toNat,
    analyze := o.analyze, saveData, hasFile := saveData }

/-- The calls that tune the device: open it, set the sample rate and the frequency, and
automatic gain for `-g 0`, manual gain otherwise. -/
def mainSetup (o : Options) : List MainEvent :=
  [.openDevice o.devIndex, .setSampleRate o.sampRate, .setCenterFreq o.frequency] ++
    if o.gain = 0 then [.setTunerGainMode false] else [.setTunerGainMode true, .setTunerGain o.gain]

/-- `main` after the option loop, from the variables and `argv[optind..]`. -/
def mainWith (o : Options) (operands : List String) (host : Host) : Option MainRun := do
  let filename := operands.head?
  let outBlock := outBlockSize o.outBlockSize
  if host.deviceCount = 0 then return ⟨[], some 1⟩
  if host.openResult < 0 then return ⟨[.openDevice o.devIndex], some 1⟩
  -- samp_rate>>demod->decimation_level
  if o.decimationLevel < 0 ∨ 32 ≤ o.decimationLevel then none
  let r := if o.gain = 0 then host.gainModeResult else host.gainResult
  if filename.any (· ≠ "-") && !host.sinkOpens then
    return ⟨mainSetup o, some (← exitStatus r)⟩
  let cfg := mainConfig o filename.isSome
  match o.testModeFile with
  | some _ =>
    let bytes ← host.replayFile
    let run ← callbackRun cfg (.init o.bytesToRead) (replayChunks bytes)
    return ⟨mainSetup o ++ run.2.map .callback, some 0⟩
  | none =>
    let setup := mainSetup o ++ [.resetBuffer]
    if o.syncMode then
      let q ← syncRun outBlock filename.isSome false o.bytesToRead host.resetResult host.syncInputs
      match q.2 with
      | some r => return ⟨setup ++ q.1 ++ [.closeDevice], some (← exitStatus r)⟩
      | none => return ⟨setup ++ q.1, none⟩
    else
      let q ← asyncSession cfg (.init o.bytesToRead) host.asyncInputs
      return ⟨setup ++ .readAsync defaultAsyncBufNumber outBlock :: q.2.map .callback ++
        [.closeDevice], some (← exitStatus host.asyncResult)⟩

/-- `main(argc, argv)` over `argv[1..]`: the option loop, `usage()` when
`argc <= optind-1`, then `filename = argv[optind]`. -/
def main (argv : List String) (host : Host) : Option MainRun := do
  match ← mainOptions argv with
  | .usage => return ⟨[], some 1⟩
  | .next o =>
    let operands := (getoptRun mainOptString argv).2
    let argc : Int := argv.length + 1
    let optind : Int := argc - operands.length
    if argc ≤ optind - 1 then return ⟨[], some 1⟩
    mainWith o operands host

/-! ## After the option loop -/

/-- `argv[optind..]` is a part of `argv`. -/
theorem getoptRun_operands_length_le (optstring : List Char) (argv : List String) :
    (getoptRun optstring argv).2.length ≤ argv.length := by
  induction argv using getoptRun.induct optstring with
  | case1 => simp [getoptRun]
  | case2 rest => simp [getoptRun]
  | case3 s hs c cs hcs r rest hr ih =>
    simp only [String.toList] at hcs
    simp [getoptRun, hs, hcs, show (clusterOptions optstring (c :: cs)).2 = none from hr]
    omega
  | case4 s hs c cs hcs r o hr =>
    simp only [String.toList] at hcs
    simp [getoptRun, hs, hcs, show (clusterOptions optstring (c :: cs)).2 = some o from hr]
  | case5 s hs c cs hcs r o arg rest hr ih =>
    simp only [String.toList] at hcs
    simp [getoptRun, hs, hcs, show (clusterOptions optstring (c :: cs)).2 = some o from hr]
    omega
  | case6 s rest hs hcs ih =>
    rw [getoptRun, if_neg hs]
    split
    · next c cs h => exact absurd h (hcs c cs)
    · simpa using ih

/-- **`argc <= optind-1` never holds**: whatever the options, `main` goes on from the
option loop to the device, without a file name too. -/
theorem main_eq_mainWith {argv : List String} {o : Options}
    (h : mainOptions argv = some (.next o)) (host : Host) :
    main argv host = mainWith o (getoptRun mainOptString argv).2 host := by
  have hle := getoptRun_operands_length_le mainOptString argv
  simp only [main, h, Option.pure_def, Option.bind_eq_bind, Option.some_bind]
  rw [if_neg (by omega)]

@[simp] theorem writtenBytes_write (bytes : List UInt8) (es : List MainEvent) :
    writtenBytes (.write bytes :: es) = bytes :: writtenBytes es := rfl

@[simp] theorem writtenBytes_readSync (len : Nat) (es : List MainEvent) :
    writtenBytes (.readSync len :: es) = writtenBytes es := rfl

@[simp] theorem writtenBytes_append (es fs : List MainEvent) :
    writtenBytes (es ++ fs) = writtenBytes es ++ writtenBytes fs := List.filterMap_append _ _ _

/-- **`main` exits through `usage()` exactly at a `'?'` from getopt**: an unknown option
character or a missing argument, after options the loop takes, ends `main` with status 1
before any device call, whatever the host; on every other command line some host sees a
call, or `main` is undefined. -/
theorem main_usage (argv : List String) :
    (∀ host, main argv host = some ⟨[], some 1⟩) ↔
      ∃ pre post o, (getoptRun mainOptString argv).1 = pre ++ ('?', none) :: post ∧
        optionLoop .init pre = some (.next o) := by
  rw [← mainOptions_eq_usage]
  constructor
  · intro h
    -- a host whose device does not open: `main` past the option loop calls `rtlsdr_open`
    have h1 := h ⟨1, -1, 0, 0, false, none, 0, [], [], 0⟩
    cases ho : mainOptions argv with
    | none => simp [main, ho] at h1
    | some q =>
      cases q with
      | usage => rfl
      | next o => simp [main_eq_mainWith ho, mainWith] at h1
  · intro hu host
    simp only [main, hu, Option.pure_def, Option.bind_eq_bind, Option.some_bind]

/-! ## Two exits of `main` -/

end Rtl433
