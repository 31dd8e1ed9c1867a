import Rtl433.Basic
/-!
# Rtl433 — the C library's reading of the command line

`main` reads its options with `getopt(argc, argv, "ar:c:l:d:f:g:s:b:n:S::")` and turns
their arguments into numbers with `atof` and `atoi`. This module models those library
calls as `main` sees them.

* **`getoptRun`** — `getopt` called until it returns -1, in the GNU default order: the
  values it returns (`'?'` for an unknown character or a missing argument) and the
  elements left at `argv[optind..]`, the non-options first and then everything after `--`;
* **`getoptRun_render`** — a list of option values written one option per element reads
  back as itself, and the elements after `--` come back untouched;
* **`getoptRun_sound`** — every value `getopt` returns is `'?'` or an option of the string,
  with an argument exactly where the string asks for one;
* **`atof`**, **`atoi`** — `strtod` and `strtol` in the C locale, with the number kept
  exact, and C's conversions of it to `uint32_t` and `int`;
* **`toUint32_atof_decimalText`**, **`atoi_intText`**, **`toInt_mulTen_atof_tenthsText`** —
  the texts `printf` writes for a number read back as that number.

An element of `argv` is a C string, so none holds `'\0'`. A decimal text is read as its
exact value and not rounded to the nearest `double`; the two truncate to different
integers only for texts with more significant digits than a `double` holds.
-/

namespace Rtl433

/-! ## getopt -/

/-- What the option string says of a character after it: nothing, `:` or `::`. -/
inductive ArgKind where
  | noArgument
  | requiredArgument
  | optionalArgument
deriving DecidableEq, Repr

/-- getopt's lookup of an option character: `strchr(optstring, c)`, refused for `:` and `;`,
then the colons after it. -/
def argKind (optstring : List Char) (c : Char) : Option ArgKind :=
  if c = ':' ∨ c = ';' then none else
  match optstring.dropWhile (fun d => d != c) with
  | [] => none
  | _ :: ':' :: ':' :: _ => some .optionalArgument
  | _ :: ':' :: _ => some .requiredArgument
  | _ => some .noArgument

/-- A character getopt takes as an option is one of the option string, and not `:`. -/
theorem mem_of_argKind_eq_some {optstring : List Char} {c : Char} {k : ArgKind}
    (h : argKind optstring c = some k) : c ∈ optstring ∧ c ≠ ':' := by
  unfold argKind at h
  split_ifs at h with hc
  refine ⟨Classical.byContradiction fun hm => ?_, fun h' => hc (.inl h')⟩
  have hnil : optstring.dropWhile (fun d => d != c) = [] :=
    List.dropWhile_eq_nil_iff.mpr fun d hd => bne_iff_ne.mpr fun h' => hm (h' ▸ hd)
  rw [hnil] at h
  cases h

/-- The values getopt returns for the characters of one option element after its `-`,
and the character whose argument is the next element when the element ends in one. A
character that takes an argument takes the rest of the element, if any. -/
def clusterOptions (optstring : List Char) :
    List Char → List (Char × Option String) × Option Char
  | [] => ([], none)
  | c :: cs =>
    let r := clusterOptions optstring cs
    match argKind optstring c with
    | none => (('?', none) :: r.1, r.2)
    | some .noArgument => ((c, none) :: r.1, r.2)
    | some .optionalArgument => ([(c, if cs = [] then none else some (String.mk cs))], none)
    | some .requiredArgument =>
      if cs = [] then ([], some c) else ([(c, some (String.mk cs))], none)

/-- getopt called until it returns -1, with the GNU default ordering: the values it
returns with `optarg`, and `argv[optind..]` after it has permuted `argv`. An element is
an option element when it starts with `-` and is not `-` alone; `--` ends the options. A
missing argument returns `'?'` and ends the elements. -/
def getoptRun (optstring : List Char) : List String → List (Char × Option String) × List String
  | [] => ([], [])
  | s :: rest =>
    if s = "--" then ([], rest) else
    match s.toList with
    | '-' :: c :: cs =>
      let r := clusterOptions optstring (c :: cs)
      match r.2, rest with
      | none, rest => (r.1 ++ (getoptRun optstring rest).1, (getoptRun optstring rest).2)
      | some _, [] => (r.1 ++ [('?', none)], [])
      | some o, arg :: rest =>
        (r.1 ++ (o, some arg) :: (getoptRun optstring rest).1, (getoptRun optstring rest).2)
    | _ => ((getoptRun optstring rest).1, s :: (getoptRun optstring rest).2)

/-- The option string of `main`. -/
def mainOptString : List Char := "ar:c:l:d:f:g:s:b:n:S::".toList

example : getoptRun mainOptString ["-al", "8000", "out.data", "-Sx", "-r", "-", "--", "-a"] =
    ([('a', none), ('l', some "8000"), ('S', some "x"), ('r', some "-")], ["out.data", "-a"]) := by
  decide

/-! ## Writing option values back

`renderOption` writes one value of getopt as the elements a user would type: `-c`, `-c`
and the argument, or `-c` with its optional argument attached. -/

section Render

variable (optstring : List Char)

/-- The elements that give getopt the value `(c, optarg)`. -/
def renderOption : Char × Option String → List String
  | (c, none) => [String.mk ['-', c]]
  | (c, some a) =>
    if argKind optstring c = some .requiredArgument then [String.mk ['-', c], a]
    else [String.mk ('-' :: c :: a.toList)]

/-- The values getopt returns for a character of the option string: without an argument,
with one, or with an optional one that is absent or not empty. `-` is left out, since
`--` ends the options. -/
inductive IsOptionValue : Char × Option String → Prop
  | noArgument {c : Char} (hc : c ≠ '-') (h : argKind optstring c = some .noArgument) :
      IsOptionValue (c, none)
  | requiredArgument {c : Char} (a : String) (hc : c ≠ '-')
      (h : argKind optstring c = some .requiredArgument) : IsOptionValue (c, some a)
  | optionalAbsent {c : Char} (hc : c ≠ '-') (h : argKind optstring c = some .optionalArgument) :
      IsOptionValue (c, none)
  | optionalPresent {c : Char} {a : String} (ha : a ≠ "") (hc : c ≠ '-')
      (h : argKind optstring c = some .optionalArgument) : IsOptionValue (c, some a)

variable {optstring}

/-- The option of a value is a character of the option string, not `:`. -/
theorem IsOptionValue.mem {v : Char × Option String} (h : IsOptionValue optstring v) :
    v.1 ∈ optstring ∧ v.1 ≠ ':' := by
  cases h <;> exact mem_of_argKind_eq_some ‹_›

theorem dash_ne_terminator {c : Char} (cs : List Char) (hc : c ≠ '-') :
    String.mk ('-' :: c :: cs) ≠ "--" := by
  intro h
  have := congrArg String.data h
  simp only [show "--".data = ['-', '-'] from rfl, List.cons.injEq] at this
  exact hc this.2.1

/-- **One rendered value reads back**, and getopt goes on with the elements after it. -/
theorem getoptRun_renderOption {o : Char × Option String} (h : IsOptionValue optstring o)
    (rest : List String) :
    getoptRun optstring (renderOption optstring o ++ rest) =
      (o :: (getoptRun optstring rest).1, (getoptRun optstring rest).2) := by
  cases h with
  | noArgument hc h =>
    rw [renderOption, List.singleton_append, getoptRun, if_neg (dash_ne_terminator [] hc)]
    simp [clusterOptions, h, String.toList]
  | requiredArgument a hc h =>
    rw [renderOption, if_pos h, List.cons_append, List.singleton_append, getoptRun,
      if_neg (dash_ne_terminator [] hc)]
    simp [clusterOptions, h, String.toList]
  | optionalAbsent hc h =>
    rw [renderOption, List.singleton_append, getoptRun, if_neg (dash_ne_terminator [] hc)]
    simp [clusterOptions, h, String.toList]
  | @optionalPresent c a ha hc h =>
    have hne : a.data ≠ [] := fun h' => ha (String.ext h')
    have hreq : argKind optstring c ≠ some .requiredArgument := by rw [h]; decide
    rw [renderOption, if_neg hreq, List.singleton_append, getoptRun,
      if_neg (dash_ne_terminator a.toList hc)]
    simp [clusterOptions, h, hne, String.toList]

/-- **getopt reads back what `renderOption` writes**: the values in order, and the
elements after `--` as `argv[optind..]`. -/
theorem getoptRun_render (opts : List (Char × Option String))
    (h : ∀ o ∈ opts, IsOptionValue optstring o) (operands : List String) :
    getoptRun optstring (opts.flatMap (renderOption optstring) ++ "--" :: operands) =
      (opts, operands) := by
  induction opts with
  | nil => simp [getoptRun]
  | cons o opts ih =>
    rw [List.flatMap_cons, List.append_assoc,
      getoptRun_renderOption (h o (List.mem_cons_self o opts)),
      ih fun o' ho' => h o' (List.mem_cons_of_mem o ho')]

/-- **The values of one option element are `'?'` or options of the string**, and the
character left waiting for the next element takes a required argument. -/
theorem clusterOptions_sound (hdash : argKind optstring '-' = none) (cs : List Char) :
    (∀ v ∈ (clusterOptions optstring cs).1, v = ('?', none) ∨ IsOptionValue optstring v) ∧
      ∀ o ∈ (clusterOptions optstring cs).2,
        o ≠ '-' ∧ argKind optstring o = some .requiredArgument := by
  induction cs with
  | nil => simp [clusterOptions]
  | cons c cs ih =>
    have hc : ∀ k, argKind optstring c = some k → c ≠ '-' := by
      rintro k hk rfl; rw [hdash] at hk; cases hk
    cases hk : argKind optstring c with
    | none => simpa [clusterOptions, hk] using ih
    | some k =>
      cases k with
      | noArgument => simpa [clusterOptions, hk, IsOptionValue.noArgument (hc _ hk) hk] using ih
      | requiredArgument =>
        by_cases hcs : cs = []
        · simp [clusterOptions, hk, hcs, hc _ hk]
        · simp [clusterOptions, hk, hcs, IsOptionValue.requiredArgument _ (hc _ hk) hk]
      | optionalArgument =>
        by_cases hcs : cs = []
        · simp [clusterOptions, hk, hcs, IsOptionValue.optionalAbsent (hc _ hk) hk]
        · have ha : String.mk cs ≠ "" := fun h => hcs (congrArg String.data h)
          simp [clusterOptions, hk, hcs, IsOptionValue.optionalPresent ha (hc _ hk) hk]

/-- **Every value getopt returns is `'?'` or an option of the string with its argument as
the string asks.** -/
theorem getoptRun_sound (hdash : argKind optstring '-' = none) (argv : List String) :
    ∀ v ∈ (getoptRun optstring argv).1, v = ('?', none) ∨ IsOptionValue optstring v := by
  induction argv using getoptRun.induct optstring with
  | case1 => simp [getoptRun]
  | case2 rest => simp [getoptRun]
  | case3 s hs c cs hcs r rest hr ih =>
    simp only [String.toList] at hcs
    have e : (getoptRun optstring (s :: rest)).1 =
        (clusterOptions optstring (c :: cs)).1 ++ (getoptRun optstring rest).1 := by
      simp [getoptRun, hs, hcs, show (clusterOptions optstring (c :: cs)).2 = none from hr]
    rw [e]
    intro v hv
    rcases List.mem_append.1 hv with hv | hv
    exacts [(clusterOptions_sound hdash (c :: cs)).1 v hv, ih v hv]
  | case4 s hs c cs hcs r o hr =>
    simp only [String.toList] at hcs
    have e : (getoptRun optstring [s]).1 = (clusterOptions optstring (c :: cs)).1 ++ [('?', none)] := by
      simp [getoptRun, hs, hcs, show (clusterOptions optstring (c :: cs)).2 = some o from hr]
    rw [e]
    intro v hv
    rcases List.mem_append.1 hv with hv | hv
    exacts [(clusterOptions_sound hdash (c :: cs)).1 v hv, .inl (List.mem_singleton.1 hv)]
  | case5 s hs c cs hcs r o arg rest hr ih =>
    simp only [String.toList] at hcs
    obtain ⟨h1, h2⟩ := clusterOptions_sound hdash (c :: cs)
    obtain ⟨ho, hk⟩ := h2 o hr
    have e : (getoptRun optstring (s :: arg :: rest)).1 =
        (clusterOptions optstring (c :: cs)).1 ++ (o, some arg) :: (getoptRun optstring rest).1 := by
      simp [getoptRun, hs, hcs, show (clusterOptions optstring (c :: cs)).2 = some o from hr]
    rw [e]
    intro v hv
    rcases List.mem_append.1 hv with hv | hv
    · exact h1 v hv
    rcases List.mem_cons.1 hv with rfl | hv
    exacts [.inr (.requiredArgument arg ho hk), ih v hv]
  | case6 s rest hs hcs ih =>
    rw [getoptRun, if_neg hs]
    split
    · next c cs h => exact absurd h (hcs c cs)
    · exact ih

end Render

/-! ## strtod and strtol

`atof(s)` is `strtod(s, NULL)`: leading white space, a sign, then `inf`, `nan`, a
hexadecimal significand after `0x` with a binary exponent after `p`, or a decimal one
with an exponent after `e`; with none of these it returns 0. The value is kept exact as
`(-1)^neg · mant · radix^exp`. -/

/-- `isspace` in the C locale. -/
def isSpace (c : Char) : Bool :=
  c = ' ' || c = '\t' || c = '\n' || c = '\x0b' || c = '\x0c' || c = '\r'

/-- The value of a hexadecimal digit, and 36 for any other character. -/
def digitValue (c : Char) : Nat :=
  if '0' ≤ c ∧ c ≤ '9' then c.toNat - '0'.toNat
  else if 'a' ≤ c ∧ c ≤ 'f' then c.toNat - 'a'.toNat + 10
  else if 'A' ≤ c ∧ c ≤ 'F' then c.toNat - 'A'.toNat + 10
  else 36

/-- The digits of `radix` at the start of a text, accumulated onto `acc`: the value, the
number of digits read onto `n`, and the rest. -/
def readDigits (radix : Nat) : Nat → Nat → List Char → Nat × Nat × List Char
  | acc, n, c :: cs =>
    if digitValue c < radix then readDigits radix (acc * radix + digitValue c) (n + 1) cs
    else (acc, n, c :: cs)
  | acc, n, [] => (acc, n, [])

/-- An optional sign: whether it is `-`, and the rest. -/
def readSign : List Char → Bool × List Char
  | '-' :: cs => (true, cs)
  | '+' :: cs => (false, cs)
  | cs => (false, cs)

/-- A number as `strtod` reads it. -/
inductive CNumber where
  /-- `(-1)^neg · mant · radix^exp`. -/
  | finite (neg : Bool) (mant radix : Nat) (exp : Int)
  | infinity (neg : Bool)
  | nan
deriving DecidableEq, Repr

/-- A significand: digits with an optional point, at least one digit. Its digits as one
number, how many stand after the point, and the rest. -/
def readSignificand (radix : Nat) (cs : List Char) : Option (Nat × Nat × List Char) :=
  let (m, n, rest) := readDigits radix 0 0 cs
  match rest with
  | '.' :: rest =>
    let (m', k, rest') := readDigits radix m 0 rest
    if n + k = 0 then none else some (m', k, rest')
  | rest => if n = 0 then none else some (m, 0, rest)

/-- An exponent after one of `marks`, with its sign; 0 when no digit follows. -/
def readExponent (marks : List Char) : List Char → Int
  | e :: cs =>
    if e ∈ marks then
      let (neg, ds) := readSign cs
      let (v, n, _) := readDigits 10 0 0 ds
      if n = 0 then 0 else if neg then -v else v
    else 0
  | [] => 0

/-- `tolower` on ASCII letters. -/
def lowerAscii (c : Char) : Char := if 'A' ≤ c ∧ c ≤ 'Z' then Char.ofNat (c.toNat + 32) else c

/-- Whether a text starts with the lower-case word `w`, in either case. -/
def startsWithWord (w cs : List Char) : Bool := w.isPrefixOf (cs.map lowerAscii)

/-- A decimal number: its significand and exponent, 0 when there is no digit. -/
def readDecimal (neg : Bool) (cs : List Char) : CNumber :=
  match readSignificand 10 cs with
  | some (m, k, rest) => .finite neg m 10 (readExponent ['e', 'E'] rest - k)
  | none => .finite neg 0 10 0

/-- What `strtod` reads after the white space and the sign. -/
def readNumber (neg : Bool) (cs : List Char) : CNumber :=
  if startsWithWord "inf".toList cs then .infinity neg
  else if startsWithWord "nan".toList cs then .nan
  else
    match cs with
    | '0' :: x :: hs =>
      if x = 'x' ∨ x = 'X' then
        match readSignificand 16 hs with
        | some (m, k, rest) => .finite neg m 2 (readExponent ['p', 'P'] rest - 4 * k)
        | none => readDecimal neg cs
      else readDecimal neg cs
    | _ => readDecimal neg cs

/-- `atof(s)`. -/
def atof (s : String) : CNumber :=
  let (neg, cs) := readSign (s.toList.dropWhile isSpace)
  readNumber neg cs

example : atof " -4.96e1dB" = .finite true 496 10 (-1) ∧ atof "0x1.8p1" = .finite false 24 2 (-3) ∧
    atof "abc" = .finite false 0 10 0 ∧ atof "Infinity" = .infinity false := by decide

/-- The value times ten, as `atof(optarg) * 10` computes it. -/
def CNumber.mulTen : CNumber → CNumber
  | .finite neg mant radix exp => .finite neg (mant * 10) radix exp
  | v => v

/-- The integral part of a finite number, truncated toward zero; none for `inf` and `nan`. -/
def CNumber.trunc : CNumber → Option Int
  | .finite neg mant radix exp =>
    let t : Nat := if 0 ≤ exp then mant * radix ^ exp.toNat else mant / radix ^ (-exp).toNat
    some (if neg then -(t : Int) else t)
  | _ => none

/-- `(uint32_t)v`: undefined when the integral part does not fit. -/
def toUint32 (v : CNumber) : Option Nat :=
  v.trunc.bind fun t => if 0 ≤ t ∧ t < 2 ^ 32 then some t.toNat else none

/-- `(int)v`: undefined when the integral part does not fit. -/
def toInt (v : CNumber) : Option Int :=
  v.trunc.bind fun t => if FitsInt32 t then some t else none

/-- `atoi(s)`, that is `strtol(s, NULL, 10)`: white space, a sign and decimal digits;
undefined when the value does not fit an `int`. -/
def atoi (s : String) : Option Int :=
  let (neg, cs) := readSign (s.toList.dropWhile isSpace)
  let v : Int := if neg then -((readDigits 10 0 0 cs).1 : Int) else (readDigits 10 0 0 cs).1
  if FitsInt32 v then some v else none

/-- An `int32_t` field assigned a `uint32_t` value: gcc reduces it modulo `2^32` into the
signed range. -/
def toInt32 (v : Nat) : Int := ((v : Int) + 2 ^ 31) % 2 ^ 32 - 2 ^ 31

theorem toInt32_wrap32 {v : Int} (h : FitsInt32 v) : toInt32 (wrap32 v) = v := by
  unfold toInt32 wrap32 FitsInt32 at *
  omega

/-! ## Numbers written as text

The texts `printf("%u")` and `printf("%d")` write, and a one-decimal text for a value in
tenths, read back by `atof` and `atoi`. -/

/-- The decimal digits of `n`, most significant first, `0` for zero. -/
def decimalDigits (n : Nat) : List Char :=
  if n = 0 then ['0'] else (Nat.digits 10 n).reverse.map Nat.digitChar

/-- `printf("%u", n)`. -/
def decimalText (n : Nat) : String := String.mk (decimalDigits n)

/-- `printf("%d", v)`. -/
def intText (v : Int) : String :=
  if v < 0 then String.mk ('-' :: decimalDigits v.natAbs) else decimalText v.toNat

/-- `v / 10` with one decimal, for a value in tenths. -/
def tenthsText (v : Int) : String :=
  String.mk ((if v < 0 then ['-'] else []) ++ decimalDigits (v.natAbs / 10) ++
    '.' :: decimalDigits (v.natAbs % 10))

/-- A run of decimal digits as `readDigits` accumulates them. -/
def digitsValue (acc : Nat) (ds : List Nat) : Nat := ds.foldl (fun a d => a * 10 + d) acc

@[simp] theorem digitsValue_nil (acc : Nat) : digitsValue acc [] = acc := rfl

@[simp] theorem digitsValue_cons (acc d : Nat) (ds : List Nat) :
    digitsValue acc (d :: ds) = digitsValue (acc * 10 + d) ds := rfl

theorem digitValue_digitChar {d : Nat} (h : d < 10) : digitValue (Nat.digitChar d) = d := by
  interval_cases d <;> rfl

/-- `readDigits` reads a run of decimal digits up to the first character that is none. -/
theorem readDigits_digits (ds : List Nat) (hds : ∀ d ∈ ds, d < 10) (acc n : Nat)
    (rest : List Char) (hrest : ∀ c ∈ rest.head?, 10 ≤ digitValue c) :
    readDigits 10 acc n (ds.map Nat.digitChar ++ rest) = (digitsValue acc ds, n + ds.length, rest) := by
  induction ds generalizing acc n with
  | nil =>
    cases rest with
    | nil => rfl
    | cons c cs => simp [readDigits, digitsValue, Nat.not_lt.2 (hrest c rfl)]
  | cons d ds ih =>
    have hd := hds d (List.mem_cons_self d ds)
    rw [List.map_cons, List.cons_append, readDigits, digitValue_digitChar hd, if_pos hd,
      ih (fun d' h' => hds d' (List.mem_cons_of_mem d h'))]
    simp [digitsValue, Nat.add_assoc, Nat.add_comm 1]

theorem digitsValue_append_singleton (acc : Nat) (ds : List Nat) (d : Nat) :
    digitsValue acc (ds ++ [d]) = digitsValue acc ds * 10 + d := by
  simp [digitsValue, List.foldl_append]

theorem digitsValue_reverse_digits (n : Nat) : digitsValue 0 (Nat.digits 10 n).reverse = n := by
  have key : ∀ L : List Nat, digitsValue 0 L.reverse = Nat.ofDigits 10 L := by
    intro L
    induction L with
    | nil => rfl
    | cons d L ih =>
      rw [List.reverse_cons, digitsValue_append_singleton, ih, Nat.ofDigits_cons]
      omega
  rw [key, Nat.ofDigits_digits]

/-- The digits `decimalDigits` writes: at least one, each below ten, worth `n`. -/
theorem decimalDigits_spec (n : Nat) :
    ∃ ds : List Nat, decimalDigits n = ds.map Nat.digitChar ∧ ds ≠ [] ∧ (∀ d ∈ ds, d < 10) ∧
      digitsValue 0 ds = n := by
  by_cases hn : n = 0
  · exact ⟨[0], by simp [decimalDigits, hn]; rfl, by simp, by simp, by simp [digitsValue, hn]⟩
  · refine ⟨(Nat.digits 10 n).reverse, by simp [decimalDigits, hn], by simpa using Nat.digits_ne_nil_iff_ne_zero.2 hn,
      fun d hd => Nat.digits_lt_base (by norm_num) (List.mem_reverse.1 hd),
      digitsValue_reverse_digits n⟩

theorem digitChar_facts {d : Nat} (h : d < 10) :
    isSpace (Nat.digitChar d) = false ∧ Nat.digitChar d ≠ '-' ∧ Nat.digitChar d ≠ '+' ∧
      Nat.digitChar d ≠ 'x' ∧ Nat.digitChar d ≠ 'X' ∧ 10 ≤ digitValue '.' ∧
      ('i' == lowerAscii (Nat.digitChar d)) = false ∧ ('n' == lowerAscii (Nat.digitChar d)) = false := by
  interval_cases d <;> decide

/-- `atof` on a text that starts with `-`, or with neither a sign nor white space. -/
theorem atof_sign (neg : Bool) (cs : List Char)
    (h : ∀ c ∈ cs.head?, isSpace c = false ∧ c ≠ '-' ∧ c ≠ '+') :
    atof (String.mk ((if neg then ['-'] else []) ++ cs)) = readNumber neg cs := by
  cases neg with
  | true => rfl
  | false =>
    cases cs with
    | nil => rfl
    | cons c cs =>
      obtain ⟨h1, h2, h3⟩ := h c rfl
      simp [atof, String.toList, List.dropWhile, h1, readSign, h2, h3]

/-- A run of digits, then nothing or a point: `strtod` reads it as decimal. -/
theorem readNumber_digits (neg : Bool) {ds : List Nat} (hne : ds ≠ []) (hds : ∀ d ∈ ds, d < 10)
    (tail : List Char) (htail : ∀ c ∈ tail.head?, c = '.') :
    readNumber neg (ds.map Nat.digitChar ++ tail) = readDecimal neg (ds.map Nat.digitChar ++ tail) := by
  obtain ⟨d, ds, rfl⟩ := List.exists_cons_of_ne_nil hne
  obtain ⟨-, -, -, -, -, -, hi, hn⟩ := digitChar_facts (hds d (List.mem_cons_self d ds))
  have hx : ∀ x ∈ (ds.map Nat.digitChar ++ tail).head?, ¬(x = 'x' ∨ x = 'X') := by
    cases ds with
    | nil => intro x hx; rw [htail x (by simpa using hx)]; decide
    | cons d' ds =>
      obtain ⟨-, -, -, h1, h2, -⟩ := digitChar_facts (hds d' (by simp))
      intro x hx
      simp only [List.map_cons, List.cons_append, List.head?_cons, Option.mem_def,
        Option.some.injEq] at hx
      subst hx; exact not_or.2 ⟨h1, h2⟩
  unfold readNumber
  simp only [List.map_cons, List.cons_append, startsWithWord, List.map, List.isPrefixOf,
    String.toList, show "inf".data = ['i', 'n', 'f'] from rfl,
    show "nan".data = ['n', 'a', 'n'] from rfl, hi, hn, Bool.false_and, Bool.false_eq_true,
    if_false]
  split
  · next x hs heq =>
    simp only [List.cons.injEq] at heq
    rw [if_neg (hx x (by rw [heq.2]; rfl))]
  · rfl

/-- **`strtod` on digits, optionally a point and more digits**: their value, scaled down by
the digits after the point. -/
theorem readDecimal_digits (neg : Bool) {ds : List Nat} (hne : ds ≠ []) (hds : ∀ d ∈ ds, d < 10)
    (frac : Option (List Nat)) (hfrac : ∀ fs ∈ frac, ∀ d ∈ fs, d < 10) :
    readDecimal neg (ds.map Nat.digitChar ++ (frac.map fun fs => '.' :: fs.map Nat.digitChar).getD []) =
      .finite neg (digitsValue (digitsValue 0 ds) (frac.getD [])) 10 (-((frac.getD []).length : Int)) := by
  have hpt := (digitChar_facts (d := 0) (by norm_num)).2.2.2.2.2.1
  cases frac with
  | none =>
    simp only [Option.map_none', Option.getD_none, readDecimal, readSignificand]
    rw [readDigits_digits _ hds _ _ _ (by simp)]
    simp [hne, readExponent, digitsValue]
  | some fs =>
    simp only [Option.map_some', Option.getD_some, readDecimal, readSignificand]
    rw [readDigits_digits _ hds _ _ _ (by simpa using hpt)]
    simp only
    rw [← List.append_nil (List.map _ fs), readDigits_digits _ (hfrac fs rfl) _ _ _ (by simp)]
    simp [hne, readExponent]

/-- **`atof` on a plain decimal text**: an optional `-`, digits, and optionally a point
and more digits. -/
theorem atof_plain (neg : Bool) {ds : List Nat} (hne : ds ≠ []) (hds : ∀ d ∈ ds, d < 10)
    (frac : Option (List Nat)) (hfrac : ∀ fs ∈ frac, ∀ d ∈ fs, d < 10) :
    atof (String.mk ((if neg then ['-'] else []) ++ (ds.map Nat.digitChar ++
      (frac.map fun fs => '.' :: fs.map Nat.digitChar).getD []))) =
      .finite neg (digitsValue (digitsValue 0 ds) (frac.getD [])) 10
        (-((frac.getD []).length : Int)) := by
  obtain ⟨d, ds', rfl⟩ := List.exists_cons_of_ne_nil hne
  obtain ⟨h1, h2, h3, -⟩ := digitChar_facts (hds d (List.mem_cons_self d ds'))
  rw [atof_sign neg _ (by simp [h1, h2, h3]),
    readNumber_digits neg hne hds _ (by cases frac <;> simp),
    readDecimal_digits neg hne hds frac hfrac]

theorem atof_decimalText (n : Nat) : atof (decimalText n) = .finite false n 10 0 := by
  obtain ⟨ds, hdig, hne, hds, hval⟩ := decimalDigits_spec n
  simpa [decimalText, hdig, hval] using atof_plain false hne hds none (by simp)

theorem trunc_finite_nat (n : Nat) : (CNumber.finite false n 10 0).trunc = some (n : Int) := by
  simp [CNumber.trunc]

/-- **`printf("%u", n)` reads back through `(uint32_t)atof`.** -/
theorem toUint32_atof_decimalText {n : Nat} (h : n < 2 ^ 32) :
    toUint32 (atof (decimalText n)) = some n := by
  rw [atof_decimalText, toUint32, trunc_finite_nat, Option.some_bind,
    if_pos ⟨Int.natCast_nonneg n, by exact_mod_cast h⟩, Int.toNat_natCast]

theorem decimalDigits_of_lt {d : Nat} (h : d < 10) : decimalDigits d = [Nat.digitChar d] := by
  by_cases hd : d = 0
  · subst hd; rfl
  · simp [decimalDigits, hd, Nat.digits_of_lt 10 d hd h]

theorem trunc_mulTen_tenths (neg : Bool) (m : Nat) :
    (CNumber.finite neg m 10 (-1)).mulTen.trunc = some (if neg then -(m : Int) else m) := by
  simp [CNumber.mulTen, CNumber.trunc]

/-- **A value in tenths, written with one decimal, reads back through `(int)(atof * 10)`.** -/
theorem toInt_mulTen_atof_tenthsText {v : Int} (h : FitsInt32 v) :
    toInt (atof (tenthsText v)).mulTen = some v := by
  obtain ⟨ds, hdig, hne, hds, hval⟩ := decimalDigits_spec (v.natAbs / 10)
  have hr : v.natAbs % 10 < 10 := Nat.mod_lt _ (by norm_num)
  have key := atof_plain (decide (v < 0)) hne hds (some [v.natAbs % 10]) (by simpa using hr)
  simp only [decide_eq_true_eq, Option.map_some', Option.getD_some, List.map_cons,
    List.map_nil, List.length_singleton, digitsValue_cons, digitsValue_nil, hval,
    Nat.div_add_mod', Nat.cast_one] at key
  have hv : (if decide (v < 0) = true then -(v.natAbs : Int) else v.natAbs) = v := by
    by_cases hv : v < 0
    · rw [if_pos (decide_eq_true hv)]; omega
    · rw [if_neg (by simpa using hv)]; omega
  rw [tenthsText, hdig, decimalDigits_of_lt hr, List.append_assoc, key, toInt,
    trunc_mulTen_tenths, Option.some_bind, hv, if_pos h]

theorem atoi_digits (neg : Bool) {ds : List Nat} (hne : ds ≠ []) (hds : ∀ d ∈ ds, d < 10)
    (h : FitsInt32 (if neg then -(digitsValue 0 ds : Int) else digitsValue 0 ds)) :
    atoi (String.mk ((if neg then ['-'] else []) ++ ds.map Nat.digitChar)) =
      some (if neg then -(digitsValue 0 ds : Int) else digitsValue 0 ds) := by
  obtain ⟨d, ds', rfl⟩ := List.exists_cons_of_ne_nil hne
  obtain ⟨h1, h2, h3, -⟩ := digitChar_facts (hds d (List.mem_cons_self d ds'))
  have hread := readDigits_digits _ hds 0 0 [] (by simp)
  rw [List.append_nil] at hread
  cases neg <;> simp_all [atoi, String.toList, List.dropWhile, readSign, isSpace]

/-- **`printf("%d", v)` reads back through `atoi`.** -/
theorem atoi_intText {v : Int} (h : FitsInt32 v) : atoi (intText v) = some v := by
  obtain ⟨ds, hdig, hne, hds, hval⟩ := decimalDigits_spec v.natAbs
  by_cases hv : v < 0
  · have hv' : -|v| = v := by rw [abs_of_neg hv, neg_neg]
    have key := atoi_digits true hne hds (by simpa [hval, hv'] using h)
    rw [intText, if_pos hv, hdig]
    simpa [hval, hv'] using key
  · have hv' : |v| = v := abs_of_nonneg (not_lt.1 hv)
    have key := atoi_digits false hne hds (by simpa [hval, hv'] using h)
    rw [intText, if_neg hv, decimalText, show v.toNat = v.natAbs by omega, hdig]
    simpa [hval, hv'] using key

end Rtl433
