import Rtl433.Getopt
import Rtl433.Callback
/-!
# Rtl433 — the options of `main`

`main` starts its variables from fixed values, runs its `switch` on every value `getopt`
returns, and calls `usage()`, which exits, on any value it does not know.

* **`mainSwitch`**, **`optionLoop`** — the switch and the `while` loop around it;
* **`Options.Valid`** — the values the variables can hold: each `uint32_t` below `2^32`,
  `gain`, `level_limit` and `decimation_level` in `int` range, `bytes_to_read` even,
  since `-n` doubles its argument;
* **`mainSwitch_valid`**, **`optionLoop_valid`** — one round of the switch keeps them
  valid, and so does the loop;
* **`mainOptions_commandLine`** — every valid setting is what the loop makes of
  `commandLine`, which writes each variable's value as `printf` would;
* **`mainOptions_reach`** — the settings the loop can end in are exactly the valid ones.
  A `-l` or `-c` argument of `2^31` or more reaches a negative `int32_t`;
* **`mainOptions_undefined`** — the loop is undefined only where it converts an argument
  text that does not fit: `getopt` never leaves an option that needs an argument
  without one (`getoptRun_sound`);
* **`mainOptions_eq_usage`** — the loop ends in `usage()` exactly at a `'?'` from
  `getopt`: every character of the option string is a case of the switch.
-/

namespace Rtl433

/-! ## The variables and the switch -/

/-- `DEFAULT_SAMPLE_RATE`. -/
def defaultSampleRate : Nat := 48000

/-- `DEFAULT_FREQUENCY`. -/
def defaultFrequency : Nat := 433920000

/-- `DEFAULT_DECIMATION_LEVEL`. -/
def defaultDecimationLevel : Int := 0

/-- The variables the option loop sets: the locals `dev_index`, `frequency`, `gain`,
`samp_rate`, `out_block_size`, `test_mode_file` and `sync_mode`, the global
`bytes_to_read`, and `demod->level_limit`, `demod->decimation_level` and `demod->analyze`. -/
structure Options where
  devIndex : Nat
  frequency : Nat
  gain : Int
  sampRate : Nat
  outBlockSize : Nat
  levelLimit : Int
  bytesToRead : Nat
  decimationLevel : Int
  analyze : Bool
  testModeFile : Option String
  syncMode : Bool
deriving DecidableEq, Repr

/-- The values before the loop: the initialisers of the locals, the zeroed `demod` with
its defaults, and `bytes_to_read = 0`. -/
def Options.init : Options where
  devIndex := 0
  frequency := defaultFrequency
  gain := 0
  sampRate := defaultSampleRate
  outBlockSize := defaultBufLength
  levelLimit := defaultLevelLimit
  bytesToRead := 0
  decimationLevel := defaultDecimationLevel
  analyze := false
  testModeFile := none
  syncMode := false

/-- What one round of the switch leaves: the loop goes on, or `usage()` exits. -/
inductive Round where
  | next (o : Options)
  | usage
deriving DecidableEq, Repr

/-- `(uint32_t)atof(optarg)`; `atof(NULL)` is undefined. -/
def uint32Arg (optarg : Option String) : Option Nat := optarg.bind fun s => toUint32 (atof s)

/-- The `switch (opt)` of `main`; `none` where a conversion is undefined. -/
def mainSwitch (o : Options) (opt : Char) (optarg : Option String) : Option Round :=
  match opt with
  | 'd' => (optarg.bind atoi).map fun v => .next { o with devIndex := wrap32 v }
  | 'f' => (uint32Arg optarg).map fun v => .next { o with frequency := v }
  | 'g' => (optarg.bind fun s => toInt (atof s).mulTen).map fun v => .next { o with gain := v }
  | 's' => (uint32Arg optarg).map fun v => .next { o with sampRate := v }
  | 'b' => (uint32Arg optarg).map fun v => .next { o with outBlockSize := v }
  | 'l' => (uint32Arg optarg).map fun v => .next { o with levelLimit := toInt32 v }
  | 'n' => (uint32Arg optarg).map fun v => .next { o with bytesToRead := nOption v }
  | 'c' => (uint32Arg optarg).map fun v => .next { o with decimationLevel := toInt32 v }
  | 'a' => some (.next { o with analyze := true })
  | 'r' => some (.next { o with testModeFile := optarg })
  | 'S' => some (.next { o with syncMode := true })
  | _ => some .usage

/-- `while ((opt = getopt(...)) != -1) switch (opt) ...` over the values `getopt` returns. -/
def optionLoop (o : Options) : List (Char × Option String) → Option Round
  | [] => some (.next o)
  | (opt, optarg) :: rest =>
    match mainSwitch o opt optarg with
    | some (.next o') => optionLoop o' rest
    | r => r

/-- The option loop of `main` over `argv[1..]`. -/
def mainOptions (argv : List String) : Option Round :=
  optionLoop .init (getoptRun mainOptString argv).1

example : mainOptions ["-l", "3000000000", "-n", "5", "-a", "out.data"] =
    some (.next { Options.init with levelLimit := -1294967296, bytesToRead := 10, analyze := true }) ∧
    mainOptions ["-q"] = some .usage ∧ mainOptions ["-n", "-1"] = none := by
  decide

/-! ## What the loop can reach -/

/-- The values the variables can hold. -/
structure Options.Valid (o : Options) : Prop where
  devIndex_lt : o.devIndex < 2 ^ 32
  frequency_lt : o.frequency < 2 ^ 32
  gain_fits : FitsInt32 o.gain
  sampRate_lt : o.sampRate < 2 ^ 32
  outBlockSize_lt : o.outBlockSize < 2 ^ 32
  levelLimit_fits : FitsInt32 o.levelLimit
  bytesToRead_lt : o.bytesToRead < 2 ^ 32
  bytesToRead_even : o.bytesToRead % 2 = 0
  decimationLevel_fits : FitsInt32 o.decimationLevel

theorem Options.init_valid : Options.init.Valid :=
  ⟨by decide, by decide, by decide, by decide, by decide, by decide, by decide, rfl, by decide⟩

theorem wrap32_lt (v : Int) : wrap32 v < 2 ^ 32 := by
  unfold wrap32; omega

theorem toInt32_fits (v : Nat) : FitsInt32 (toInt32 v) := by
  unfold toInt32 FitsInt32; omega

theorem nOption_lt (v : Nat) : nOption v < 2 ^ 32 := wrap32_lt _

theorem nOption_even (v : Nat) : nOption v % 2 = 0 := by
  unfold nOption wrap32; omega

theorem toUint32_lt {v : CNumber} {n : Nat} (h : toUint32 v = some n) : n < 2 ^ 32 := by
  simp only [toUint32, Option.bind_eq_some, Option.ite_none_right_eq_some,
    Option.some.injEq] at h
  omega

theorem toInt_fits {v : CNumber} {t : Int} (h : toInt v = some t) : FitsInt32 t := by
  simp only [toInt, Option.bind_eq_some, Option.ite_none_right_eq_some, Option.some.injEq] at h
  obtain ⟨_, _, hf, rfl⟩ := h
  exact hf

theorem uint32Arg_lt {optarg : Option String} {n : Nat} (h : uint32Arg optarg = some n) :
    n < 2 ^ 32 := by
  obtain ⟨s, -, hs⟩ := Option.bind_eq_some.1 h
  exact toUint32_lt hs

/-- **One round of the switch keeps the variables valid.** -/
theorem mainSwitch_valid {o o' : Options} {opt : Char} {optarg : Option String}
    (hv : o.Valid) (h : mainSwitch o opt optarg = some (.next o')) : o'.Valid := by
  unfold mainSwitch at h
  split at h <;> simp only [Option.map_eq_some', Option.some.injEq, Round.next.injEq] at h
  · obtain ⟨v, -, rfl⟩ := h; exact { hv with devIndex_lt := wrap32_lt v }
  · obtain ⟨v, hv', rfl⟩ := h; exact { hv with frequency_lt := uint32Arg_lt hv' }
  · obtain ⟨v, hv', rfl⟩ := h
    obtain ⟨s, -, hs⟩ := Option.bind_eq_some.1 hv'
    exact { hv with gain_fits := toInt_fits hs }
  · obtain ⟨v, hv', rfl⟩ := h; exact { hv with sampRate_lt := uint32Arg_lt hv' }
  · obtain ⟨v, hv', rfl⟩ := h; exact { hv with outBlockSize_lt := uint32Arg_lt hv' }
  · obtain ⟨v, -, rfl⟩ := h; exact { hv with levelLimit_fits := toInt32_fits v }
  · obtain ⟨v, -, rfl⟩ := h
    exact { hv with bytesToRead_lt := nOption_lt v, bytesToRead_even := nOption_even v }
  · obtain ⟨v, -, rfl⟩ := h; exact { hv with decimationLevel_fits := toInt32_fits v }
  · subst h; exact { hv with }
  · subst h; exact { hv with }
  · subst h; exact { hv with }
  · cases h

/-- **The loop keeps the variables valid.** -/
theorem optionLoop_valid {o o' : Options} {items : List (Char × Option String)}
    (hv : o.Valid) (h : optionLoop o items = some (.next o')) : o'.Valid := by
  induction items generalizing o with
  | nil => simp only [optionLoop, Option.some.injEq, Round.next.injEq] at h; exact h ▸ hv
  | cons item items ih =>
    obtain ⟨opt, optarg⟩ := item
    simp only [optionLoop] at h
    split at h
    · next o'' hs => exact ih (mainSwitch_valid hv hs) h
    · next hs => rw [h] at hs; exact absurd rfl (hs o')

/-! ## A command line for every valid setting -/

/-- The values `getopt` returns for a command line that sets each numeric variable to its
value in `o`: `-d` as `printf("%d")` of its `int` reading, `-g` in tenths with one decimal,
`-n` half the byte count, `-l` and `-c` as the `uint32_t` that wraps to them. -/
def numericValues (o : Options) : List (Char × Option String) :=
  [('d', some (intText (toInt32 o.devIndex))), ('f', some (decimalText o.frequency)),
    ('g', some (tenthsText o.gain)), ('s', some (decimalText o.sampRate)),
    ('b', some (decimalText o.outBlockSize)), ('l', some (decimalText (wrap32 o.levelLimit))),
    ('n', some (decimalText (o.bytesToRead / 2))),
    ('c', some (decimalText (wrap32 o.decimationLevel)))]

/-- The values for `-a`, `-r` and `-S`, each given when `o` sets it. -/
def flagValues (o : Options) : List (Char × Option String) :=
  (if o.analyze then [('a', none)] else []) ++
  (match o.testModeFile with | some path => [('r', some path)] | none => []) ++
  (if o.syncMode then [('S', none)] else [])

/-- The values `getopt` returns for a command line that sets every variable to its value in `o`. -/
def optionValues (o : Options) : List (Char × Option String) := numericValues o ++ flagValues o

/-- A command line for `o`, with `operands` after `--`. -/
def commandLine (o : Options) (operands : List String) : List String :=
  (optionValues o).flatMap (renderOption mainOptString) ++ "--" :: operands

theorem wrap32_toInt32 {v : Nat} (h : v < 2 ^ 32) : wrap32 (toInt32 v) = v := by
  unfold wrap32 toInt32; omega

theorem nOption_half {b : Nat} (hlt : b < 2 ^ 32) (heven : b % 2 = 0) : nOption (b / 2) = b := by
  unfold nOption wrap32; omega

theorem optionValues_isOptionValue (o : Options) :
    ∀ x ∈ optionValues o, IsOptionValue mainOptString x := by
  have hreq : ∀ c ∈ ['d', 'f', 'g', 's', 'b', 'l', 'n', 'c', 'r'], ∀ a : String,
      IsOptionValue mainOptString (c, some a) := by
    intro c hc a
    have h : c ≠ '-' ∧ argKind mainOptString c = some .requiredArgument := by
      revert c; decide
    exact .requiredArgument a h.1 h.2
  intro x hx
  simp only [optionValues, numericValues, flagValues, List.mem_append, List.mem_cons,
    List.mem_singleton, List.not_mem_nil, or_false] at hx
  rcases hx with (hx | hx | hx | hx | hx | hx | hx | hx) | ((hx | hx) | hx)
  all_goals first
    | exact hx ▸ hreq _ (by simp) _
    | skip
  · split at hx
    · simp only [List.mem_singleton] at hx
      exact hx ▸ .noArgument (by decide) (by decide)
    · simp at hx
  · split at hx <;> simp only [List.mem_singleton, List.not_mem_nil] at hx
    exact hx ▸ hreq 'r' (by simp) _
  · split at hx
    · simp only [List.mem_singleton] at hx
      exact hx ▸ .optionalAbsent (by decide) (by decide)
    · simp at hx

theorem optionLoop_append {o o' : Options} {xs : List (Char × Option String)}
    (h : optionLoop o xs = some (.next o')) (ys : List (Char × Option String)) :
    optionLoop o (xs ++ ys) = optionLoop o' ys := by
  induction xs generalizing o with
  | nil => simp only [optionLoop, Option.some.injEq, Round.next.injEq] at h; rw [← h]; rfl
  | cons item xs ih =>
    obtain ⟨opt, optarg⟩ := item
    rw [optionLoop] at h
    rw [List.cons_append, optionLoop]
    split at h
    · next o'' hs => exact ih h
    · next hs => rw [h] at hs; exact absurd rfl (hs o')

theorem optionLoop_cons_next {o o' : Options} {opt : Char} {optarg : Option String}
    (h : mainSwitch o opt optarg = some (.next o')) (rest : List (Char × Option String)) :
    optionLoop o ((opt, optarg) :: rest) = optionLoop o' rest := by
  rw [optionLoop, h]

/-- The numeric values set each numeric variable to its value in `o`. -/
theorem optionLoop_numericValues {o : Options} (hv : o.Valid) (o₀ : Options) :
    optionLoop o₀ (numericValues o) = some (.next { o₀ with
      devIndex := o.devIndex, frequency := o.frequency, gain := o.gain, sampRate := o.sampRate,
      outBlockSize := o.outBlockSize, levelLimit := o.levelLimit, bytesToRead := o.bytesToRead,
      decimationLevel := o.decimationLevel }) := by
  -- `simp` would evaluate `atoi` on the `-d` text by unfolding its `uint32_t` arithmetic
  have hd : mainSwitch o₀ 'd' (some (intText (toInt32 o.devIndex))) =
      some (.next { o₀ with devIndex := o.devIndex }) := by
    show ((some (intText (toInt32 o.devIndex))).bind atoi).map
      (fun v => Round.next { o₀ with devIndex := wrap32 v }) = _
    rw [Option.some_bind, atoi_intText (toInt32_fits _), Option.map_some',
      wrap32_toInt32 hv.devIndex_lt]
  rw [numericValues, optionLoop_cons_next hd]
  simp only [optionLoop, mainSwitch, uint32Arg, Option.some_bind, Option.map_some',
    toUint32_atof_decimalText hv.frequency_lt, toInt_mulTen_atof_tenthsText hv.gain_fits,
    toUint32_atof_decimalText hv.sampRate_lt, toUint32_atof_decimalText hv.outBlockSize_lt,
    toUint32_atof_decimalText (wrap32_lt _), toInt32_wrap32 hv.levelLimit_fits,
    toUint32_atof_decimalText (lt_of_le_of_lt (Nat.div_le_self _ 2) hv.bytesToRead_lt),
    nOption_half hv.bytesToRead_lt hv.bytesToRead_even, toInt32_wrap32 hv.decimationLevel_fits]

/-- The flag values set `-a`, `-r` and `-S` as `o` has them, from their initial values. -/
theorem optionLoop_flagValues (o o₀ : Options) (ha : o₀.analyze = false)
    (hr : o₀.testModeFile = none) (hS : o₀.syncMode = false) :
    optionLoop o₀ (flagValues o) = some (.next { o₀ with
      analyze := o.analyze, testModeFile := o.testModeFile, syncMode := o.syncMode }) := by
  obtain ⟨_, _, _, _, _, _, _, _, a, r, S⟩ := o
  obtain ⟨_, _, _, _, _, _, _, _, a₀, r₀, S₀⟩ := o₀
  subst ha hr hS
  cases a <;> cases r <;> cases S <;> rfl

/-- **The loop reads `optionValues o` back as `o`**, from the variables' initial values. -/
theorem optionLoop_optionValues {o : Options} (hv : o.Valid) :
    optionLoop .init (optionValues o) = some (.next o) := by
  rw [optionValues, optionLoop_append (optionLoop_numericValues hv .init),
    optionLoop_flagValues _ _ rfl rfl rfl]

/-- **The command line of a valid setting reads back as it**: the option loop ends in `o`,
and the operands after `--` are `argv[optind..]`. -/
theorem mainOptions_commandLine {o : Options} (hv : o.Valid) (operands : List String) :
    mainOptions (commandLine o operands) = some (.next o) ∧
      (getoptRun mainOptString (commandLine o operands)).2 = operands := by
  rw [mainOptions, commandLine,
    getoptRun_render (optionValues o) (optionValues_isOptionValue o) operands]
  exact ⟨optionLoop_optionValues hv, rfl⟩

/-- **The settings the option loop of `main` can end in are exactly the valid ones.** -/
theorem mainOptions_reach (o : Options) :
    (∃ argv, mainOptions argv = some (.next o)) ↔ o.Valid :=
  ⟨fun ⟨_, h⟩ => optionLoop_valid Options.init_valid h,
    fun hv => ⟨commandLine o [], (mainOptions_commandLine hv []).1⟩⟩

/-! ## Where the loop is undefined -/

/-- The switch is undefined on an absent argument only for an option that requires one. -/
theorem mainSwitch_none_arg {o : Options} {c : Char} (h : mainSwitch o c none = none) :
    argKind mainOptString c = some .requiredArgument := by
  unfold mainSwitch at h
  split at h <;> first | decide | simp at h

/-- A value the switch does not go on from ends the loop with the switch's result. -/
theorem optionLoop_cons_stop {o : Options} {opt : Char} {optarg : Option String}
    (h : ∀ o', mainSwitch o opt optarg ≠ some (.next o')) (rest : List (Char × Option String)) :
    optionLoop o ((opt, optarg) :: rest) = mainSwitch o opt optarg := by
  rw [optionLoop]; split
  · next hs => exact absurd hs (h _)
  · rfl

/-- Where the loop stops before the end of the values, undefined or in `usage()`: at one
value, after a prefix the loop runs through. -/
theorem optionLoop_stop {o : Options} {vals : List (Char × Option String)} {r : Option Round}
    (h : optionLoop o vals = r) (hr : ∀ o', r ≠ some (.next o')) :
    ∃ pre v post o', vals = pre ++ v :: post ∧ optionLoop o pre = some (.next o') ∧
      mainSwitch o' v.1 v.2 = r := by
  induction vals generalizing o with
  | nil => exact absurd h.symm (hr o)
  | cons v vals ih =>
    by_cases hs : ∃ o'', mainSwitch o v.1 v.2 = some (.next o'')
    · -- the switch goes on: the stop lies in the rest
      obtain ⟨o'', hs⟩ := hs
      obtain ⟨pre, w, post, o', rfl, h1, h2⟩ := ih ((optionLoop_cons_next hs vals).symm.trans h)
      exact ⟨v :: pre, w, post, o', rfl, (optionLoop_cons_next hs pre).trans h1, h2⟩
    · exact ⟨[], v, vals, o, rfl, rfl, (optionLoop_cons_stop (not_exists.mp hs) vals).symm.trans h⟩

theorem optionLoop_eq_none {o : Options} {vals : List (Char × Option String)}
    (h : optionLoop o vals = none) :
    ∃ pre v post o', vals = pre ++ v :: post ∧ optionLoop o pre = some (.next o') ∧
      mainSwitch o' v.1 v.2 = none :=
  optionLoop_stop h fun _ h' => by cases h'

/-- The switch takes every option of its string: only another character, which getopt
returns as `'?'`, falls to `usage()`. -/
theorem mainSwitch_ne_usage {o : Options} {c : Char} (hc : c ∈ mainOptString) (hc' : c ≠ ':')
    (a : Option String) : mainSwitch o c a ≠ some .usage := by
  have key : ∀ d ∈ mainOptString, d = ':' ∨ d = 'a' ∨ d = 'r' ∨ d = 'c' ∨ d = 'l' ∨ d = 'd' ∨
      d = 'f' ∨ d = 'g' ∨ d = 's' ∨ d = 'b' ∨ d = 'n' ∨ d = 'S' := by decide
  rcases key c hc with h | rfl | rfl | rfl | rfl | rfl | rfl | rfl | rfl | rfl | rfl | rfl
  · exact absurd h hc'
  all_goals simp [mainSwitch, Option.bind_eq_some, Option.map_eq_some']

/-- **`usage()` exactly at a `'?'`.** The option loop ends in `usage()` exactly when getopt
returns `'?'`, for an unknown option character or a missing argument, after values the
loop runs through. -/
theorem mainOptions_eq_usage (argv : List String) :
    mainOptions argv = some .usage ↔
      ∃ pre post o, (getoptRun mainOptString argv).1 = pre ++ ('?', none) :: post ∧
        optionLoop .init pre = some (.next o) := by
  constructor
  · intro h
    obtain ⟨pre, ⟨c, a⟩, post, o, hvals, hpre, hsw⟩ := optionLoop_stop h fun _ h' => by cases h'
    refine ⟨pre, post, o, ?_, hpre⟩
    rcases @getoptRun_sound mainOptString (by decide) argv (c, a) (by rw [hvals]; simp) with hq | hv
    · rw [hvals, hq]
    · exact absurd hsw (mainSwitch_ne_usage hv.mem.1 hv.mem.2 a)
  · rintro ⟨pre, post, o, hvals, hpre⟩
    rw [mainOptions, hvals, optionLoop_append hpre]
    rfl

/-- **The option loop is undefined only at a number that does not fit.** `getopt` hands
every option that requires an argument a non-null `optarg`, so `atof` and `atoi` never
see `NULL`: where the loop is undefined, it is converting an argument text. -/
theorem mainOptions_undefined {argv : List String} (h : mainOptions argv = none) :
    ∃ pre c t post o, (getoptRun mainOptString argv).1 = pre ++ (c, some t) :: post ∧
      optionLoop .init pre = some (.next o) ∧ mainSwitch o c (some t) = none := by
  obtain ⟨pre, ⟨c, a⟩, post, o, hvals, hpre, hsw⟩ := optionLoop_eq_none h
  cases a with
  | some t => exact ⟨pre, c, t, post, o, hvals, hpre, hsw⟩
  | none =>
    have hreq := mainSwitch_none_arg hsw
    rcases @getoptRun_sound mainOptString (by decide) argv (c, none)
        (by rw [hvals]; simp) with hq | hv
    · -- `'?'` falls to the switch's default, `usage()`
      rw [(Prod.mk.inj hq).1] at hreq
      exact absurd hreq (by decide)
    · cases hv with
      | noArgument _ hk => rw [hk] at hreq; cases hreq
      | optionalAbsent _ hk => rw [hk] at hreq; cases hreq

theorem minus_one_bytes_undefined :
    ∃ pre c t post o, (getoptRun mainOptString ["-n", "-1"]).1 = pre ++ (c, some t) :: post ∧
      optionLoop .init pre = some (.next o) ∧ mainSwitch o c (some t) = none :=
  @mainOptions_undefined ["-n", "-1"] (by decide)

end Rtl433
