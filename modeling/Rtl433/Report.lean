import Rtl433.Analyze

/-!
# Rtl433 — what `pwm_analyze` reports of a stream

The statics of `pwm_analyze` implement a two-state hysteresis: between pulses (`print`)
the first sample above the level opens one, inside a pulse (`print2`) the first sample
below it closes it. This module states what the printed lines are for, independently of
the statics, and proves the loop prints exactly that.

* `Pulse`, `PulseAt`, `Chain`, `Segmentation` — the abstract model: a stream cut into
  pulses, each opening at the first sample above the level after the previous end and
  closing at the first sample below it after its start; `segmentation_unique` shows a
  stream has at most one;
* `pulseReport`, `analyzerReport` — the lines a segmentation should print, with the
  `k`-th average the mean of the first `k` lengths;
* `AnalyzerState.Tracks`, `Reported` — the statics and the printed lines against the
  segmentation of the stream so far. `reported_pwmAnalyzeSample` is the step lemma and
  `reported_pwmAnalyze` the run lemma;
* **`pwmAnalyze_report`** — from the initialisers, for every stream of fewer than `2^31`
  samples (the `int` counter overflows at `2^31`, `pwmAnalyze_counter_overflows`), the
  printed lines are the report of its one segmentation.
-/

namespace Rtl433

/-! ## The segmentation of a stream

A pulse starts at the first sample above the level after the previous pulse's end
(initially sample 0) and ends at the first sample below the level after its start. The
end printed is the sample after that one, `counter` after its increment, so a pulse is
at least two samples long. -/

/-- A pulse as `pwm_analyze` sees it: the sample it starts at, the value there, and the
sample after the one below the level that ends it. -/
structure Pulse where
  start : Nat
  value : Int
  stop : Nat
deriving DecidableEq, Repr

/-- The length `pwm_analyze` prints for it, `counter - pulse_start` at its end. -/
def Pulse.length (p : Pulse) : Int := (p.stop : Int) - p.start

section Segments

variable (levelLimit : Int) (xs : List Int)

/-- No sample of `[a, b)` lies above the level. -/
def NoRise (a b : Nat) : Prop := ∀ i, a ≤ i → i < b → xs.getD i 0 ≤ levelLimit

/-- No sample of `[a, b)` lies below the level. -/
def NoFall (a b : Nat) : Prop := ∀ i, a ≤ i → i < b → levelLimit ≤ xs.getD i 0

/-- After an end at `e`, a pulse opens at sample `c` of value `v`: the first sample from
`e` on above the level. -/
def Opens (e c : Nat) (v : Int) : Prop :=
  e ≤ c ∧ c < xs.length ∧ NoRise levelLimit xs e c ∧ xs.getD c 0 = v ∧ levelLimit < v

/-- A whole pulse after an end at `e`: it opens, and sample `stop - 1` is the first after
its start below the level. -/
def PulseAt (e : Nat) (p : Pulse) : Prop :=
  Opens levelLimit xs e p.start p.value ∧ p.start + 2 ≤ p.stop ∧ p.stop ≤ xs.length ∧
    NoFall levelLimit xs (p.start + 1) (p.stop - 1) ∧ xs.getD (p.stop - 1) 0 < levelLimit

/-- Pulses one after another, the first after an end at `e`. -/
def Chain : Nat → List Pulse → Prop
  | _, [] => True
  | e, p :: ps => PulseAt levelLimit xs e p ∧ Chain p.stop ps

end Segments

/-- The end of the last pulse, `e` if there is none. -/
def lastStop : Nat → List Pulse → Nat
  | e, [] => e
  | _, p :: ps => lastStop p.stop ps

/-- The summed lengths. -/
def totalLength (ps : List Pulse) : Int := (ps.map Pulse.length).sum

/-- The segmentation of a stream: the pulses closed in it, one after another from the
start, and either no sample above the level after the last, or one more pulse `(c, v)`
open to the end. -/
def Segmentation (levelLimit : Int) (xs : List Int) (ps : List Pulse) : Option (Nat × Int) → Prop
  | none => Chain levelLimit xs 0 ps ∧ NoRise levelLimit xs (lastStop 0 ps) xs.length
  | some (c, v) => Chain levelLimit xs 0 ps ∧ Opens levelLimit xs (lastStop 0 ps) c v ∧
      NoFall levelLimit xs (c + 1) xs.length

/-! ## The report

For each closed pulse, three lines: `pulse_distance`, `pulse_start[k]` and `pulse_end [k]`
with the mean length of pulses `1..k`, truncated as C's `/` truncates. -/

/-- What `pwm_analyze` should print of the pulses `ps`, numbered from `k + 1`, after an end
at `e` and lengths summing to `total`: for each, its distance from the previous end, its
start, and its end with its length and the mean length so far. -/
def pulseReport : Nat → Nat → Int → List Pulse → List AnalyzeEvent
  | _, _, _, [] => []
  | k, e, total, p :: ps =>
    [.pulseDistance ((p.start : Int) - e), .pulseStart (k + 1 : Nat) p.start p.value,
      .pulseEnd (k + 1 : Nat) p.stop p.length ((total + p.length).tdiv (k + 1 : Nat))] ++
      pulseReport (k + 1) p.stop (total + p.length) ps

/-- The report of a segmentation: its closed pulses, then the distance and start of the
open one. -/
def analyzerReport (ps : List Pulse) : Option (Nat × Int) → List AnalyzeEvent
  | none => pulseReport 0 0 0 ps
  | some (c, v) => pulseReport 0 0 0 ps ++
      [.pulseDistance ((c : Int) - lastStop 0 ps), .pulseStart (ps.length + 1 : Nat) c v]

/-! ## Growing lists of pulses -/

@[simp] theorem lastStop_append_singleton (e : Nat) (ps : List Pulse) (p : Pulse) :
    lastStop e (ps ++ [p]) = p.stop := by
  induction ps generalizing e with
  | nil => rfl
  | cons q ps ih => exact ih q.stop

@[simp] theorem totalLength_append_singleton (ps : List Pulse) (p : Pulse) :
    totalLength (ps ++ [p]) = totalLength ps + p.length := by
  simp [totalLength]

theorem chain_append_singleton {levelLimit : Int} {xs : List Int} {e : Nat} {ps : List Pulse}
    {p : Pulse} :
    Chain levelLimit xs e (ps ++ [p]) ↔
      Chain levelLimit xs e ps ∧ PulseAt levelLimit xs (lastStop e ps) p := by
  induction ps generalizing e with
  | nil => simp [Chain, lastStop]
  | cons q ps ih => rw [List.cons_append, Chain, Chain, ih, lastStop, and_assoc]

theorem pulseReport_append_singleton (k e : Nat) (total : Int) (ps : List Pulse) (p : Pulse) :
    pulseReport k e total (ps ++ [p]) = pulseReport k e total ps ++
      [.pulseDistance ((p.start : Int) - lastStop e ps),
        .pulseStart (k + ps.length + 1 : Nat) p.start p.value,
        .pulseEnd (k + ps.length + 1 : Nat) p.stop p.length
          ((total + totalLength ps + p.length).tdiv (k + ps.length + 1 : Nat))] := by
  induction ps generalizing k e total with
  | nil => simp [pulseReport, lastStop, totalLength]
  | cons q ps ih =>
    rw [List.cons_append, pulseReport, pulseReport, ih, lastStop, List.append_assoc]
    simp only [List.length_cons, totalLength, List.map_cons, List.sum_cons,
      show k + 1 + ps.length = k + (ps.length + 1) by omega, add_assoc]

/-! ## Growing streams

A segmentation speaks only of the samples it has seen: one more sample leaves every
closed pulse and every quiet stretch as it was. -/

section Extend

variable {levelLimit : Int} {xs : List Int}

theorem getD_append_of_lt (ys : List Int) {i : Nat} (h : i < xs.length) :
    (xs ++ ys).getD i 0 = xs.getD i 0 :=
  List.getD_append _ _ _ _ h

theorem NoRise.append {a b : Nat} (h : NoRise levelLimit xs a b) (hb : b ≤ xs.length)
    (ys : List Int) :
    NoRise levelLimit (xs ++ ys) a b := fun i ha hi => by
  rw [getD_append_of_lt ys (by omega)]; exact h i ha hi

theorem NoFall.append {a b : Nat} (h : NoFall levelLimit xs a b) (hb : b ≤ xs.length)
    (ys : List Int) :
    NoFall levelLimit (xs ++ ys) a b := fun i ha hi => by
  rw [getD_append_of_lt ys (by omega)]; exact h i ha hi

theorem Opens.append {e c : Nat} {v : Int} (h : Opens levelLimit xs e c v) (ys : List Int) :
    Opens levelLimit (xs ++ ys) e c v := by
  obtain ⟨hec, hc, hq, hv, hl⟩ := h
  exact ⟨hec, by simp; omega, hq.append hc.le ys, by rw [getD_append_of_lt ys hc, hv], hl⟩

theorem PulseAt.append {e : Nat} {p : Pulse} (h : PulseAt levelLimit xs e p) (ys : List Int) :
    PulseAt levelLimit (xs ++ ys) e p := by
  obtain ⟨ho, hlen, hstop, hq, hlow⟩ := h
  exact ⟨ho.append ys, hlen, by simp; omega, hq.append (by omega) ys,
    by rw [getD_append_of_lt ys (by omega)]; exact hlow⟩

theorem Chain.append {e : Nat} {ps : List Pulse} (h : Chain levelLimit xs e ps) (ys : List Int) :
    Chain levelLimit (xs ++ ys) e ps := by
  induction ps generalizing e with
  | nil => trivial
  | cons p ps ih => exact ⟨h.1.append ys, ih h.2⟩

theorem lastStop_le {e : Nat} {ps : List Pulse} (h : Chain levelLimit xs e ps)
    (he : e ≤ xs.length) :
    lastStop e ps ≤ xs.length := by
  induction ps generalizing e with
  | nil => exact he
  | cons p ps ih => exact ih h.2 h.1.2.2.1

theorem getD_append_singleton_length (s : Int) : (xs ++ [s]).getD xs.length 0 = s := by
  simp

theorem NoRise.snoc {a : Nat} (h : NoRise levelLimit xs a xs.length) {s : Int}
    (hs : s ≤ levelLimit) :
    NoRise levelLimit (xs ++ [s]) a (xs.length + 1) := fun i ha hi => by
  rcases Nat.lt_succ_iff_lt_or_eq.mp hi with hi | rfl
  · rw [getD_append_of_lt _ hi]; exact h i ha hi
  · rw [getD_append_singleton_length]; exact hs

theorem NoFall.snoc {a : Nat} (h : NoFall levelLimit xs a xs.length) {s : Int}
    (hs : levelLimit ≤ s) :
    NoFall levelLimit (xs ++ [s]) a (xs.length + 1) := fun i ha hi => by
  rcases Nat.lt_succ_iff_lt_or_eq.mp hi with hi | rfl
  · rw [getD_append_of_lt _ hi]; exact h i ha hi
  · rw [getD_append_singleton_length]; exact hs

theorem NoRise.empty (a : Nat) : NoRise levelLimit xs a a := fun _ _ h => absurd h (by omega)

theorem NoFall.empty (a : Nat) : NoFall levelLimit xs a a := fun _ _ h => absurd h (by omega)

end Extend

/-! ## The statics track the segmentation

`counter` counts the samples, `pulse_end` and `pulse_avg` are the last end and the summed
lengths of the closed pulses, and the two flags say whether a pulse is open. -/

/-- The statics after `n` samples whose segmentation is `ps`, `o`: `counter` is `n`,
`pulse_end` the last end, `pulse_avg` the summed lengths; `print` is set and
`pulses_found` counts the closed pulses when none is open, and otherwise `print2` is set,
`pulses_found` counts the open one too, and `pulse_start` is where it opened. -/
def AnalyzerState.Tracks (st : AnalyzerState) (n : Nat) (ps : List Pulse) :
    Option (Nat × Int) → Prop
  | none => st.counter = n ∧ st.pulseEnd = lastStop 0 ps ∧ st.pulseAvg = totalLength ps ∧
      st.print = 1 ∧ st.print2 = 0 ∧ st.pulsesFound = ps.length
  | some (c, _) => st.counter = n ∧ st.pulseEnd = lastStop 0 ps ∧
      st.pulseAvg = totalLength ps ∧ st.print = 0 ∧ st.print2 = 1 ∧
      st.pulsesFound = ps.length + 1 ∧ st.pulseStart = c

/-- The statics after the stream `xs`, and the lines printed over it, are those of its
segmentation. -/
def Reported (levelLimit : Int) (xs : List Int) (st : AnalyzerState) (es : List AnalyzeEvent) :
    Prop :=
  ∃ ps o, Segmentation levelLimit xs ps o ∧ st.Tracks xs.length ps o ∧
    es = analyzerReport ps o

/-- **The step lemma.** One more sample keeps the statics and the printed lines on the
segmentation of the longer stream: a rise opens a pulse, a fall closes the open one, and
any other sample extends the stretch under way. -/
theorem reported_pwmAnalyzeSample {levelLimit : Int} {xs : List Int} {st : AnalyzerState}
    {es : List AnalyzeEvent} (h : Reported levelLimit xs st es) (s : Int) :
    Reported levelLimit (xs ++ [s]) (pwmAnalyzeSample levelLimit st s).1
      (es ++ (pwmAnalyzeSample levelLimit st s).2) := by
  obtain ⟨ps, o, hseg, htr, rfl⟩ := h
  rcases o with _ | ⟨c, v⟩
  · -- no pulse open
    obtain ⟨hch, hq⟩ := hseg
    obtain ⟨hcnt, hend, havg, hp, hp2, hk⟩ := htr
    rcases lt_trichotomy s levelLimit with hlt | rfl | hgt
    · rw [pwmAnalyzeSample_low hlt hp2]
      exact ⟨ps, none, ⟨hch.append _, by simpa using hq.snoc hlt.le⟩,
        ⟨by simp [hcnt], hend, havg, rfl, hp2, hk⟩, by simp [analyzerReport]⟩
    · rw [pwmAnalyzeSample_level]
      exact ⟨ps, none, ⟨hch.append _, by simpa using hq.snoc le_rfl⟩,
        ⟨by simp [hcnt], hend, havg, hp, hp2, hk⟩, by simp [analyzerReport]⟩
    · -- a rise opens a pulse at sample `counter`
      rw [pwmAnalyzeSample_rise hgt (by omega)]
      refine ⟨ps, some (xs.length, s), ⟨hch.append _, ⟨lastStop_le hch (Nat.zero_le _),
        by simp, hq.append le_rfl _, getD_append_singleton_length s, hgt⟩,
        by simpa using NoFall.empty _⟩,
        ⟨by simp [hcnt], hend, havg, rfl, rfl, by simp [hk], hcnt⟩,
        by simp [analyzerReport, hcnt, hend, hk]⟩
  · -- a pulse open since sample `c`
    obtain ⟨hch, ho, hf⟩ := hseg
    obtain ⟨hcnt, hend, havg, hp, hp2, hk, hc⟩ := htr
    rcases lt_trichotomy s levelLimit with hlt | rfl | hgt
    · -- a fall closes it at sample `counter + 1`
      rw [pwmAnalyzeSample_fall hlt (by omega)]
      have hcx := ho.2.1
      refine ⟨ps ++ [⟨c, v, xs.length + 1⟩], none,
        ⟨chain_append_singleton.mpr ⟨hch.append _, ⟨ho.append _, by dsimp only; omega,
          by simp, by simpa using hf.append le_rfl [s], by simpa using hlt⟩⟩,
          by simpa using NoRise.empty _⟩,
        ⟨by simp [hcnt], by simp [hcnt], by simp [havg, hcnt, hc, Pulse.length], rfl, rfl,
          by simp [hk]⟩, ?_⟩
      simp [analyzerReport, pulseReport_append_singleton, hcnt, hk, havg, hc, Pulse.length]
    · rw [pwmAnalyzeSample_level]
      exact ⟨ps, some (c, v), ⟨hch.append _, ho.append _, by simpa using hf.snoc le_rfl⟩,
        ⟨by simp [hcnt], hend, havg, hp, hp2, hk, hc⟩, by simp [analyzerReport]⟩
    · rw [pwmAnalyzeSample_high hgt hp]
      exact ⟨ps, some (c, v), ⟨hch.append _, ho.append _, by simpa using hf.snoc hgt.le⟩,
        ⟨by simp [hcnt], hend, havg, hp, hp2, hk, hc⟩, by simp [analyzerReport]⟩

/-- **The run lemma**, by induction on the stream from its end: from the statics'
initialisers, every stream leaves the statics and the printed lines on its segmentation. -/
theorem reported_pwmAnalyze (levelLimit : Int) (xs : List Int) :
    Reported levelLimit xs (pwmAnalyze levelLimit .init xs).1
      (pwmAnalyze levelLimit .init xs).2 := by
  induction xs using List.reverseRecOn with
  | nil =>
    exact ⟨[], none, ⟨trivial, NoRise.empty 0⟩, ⟨rfl, rfl, rfl, rfl, rfl, rfl⟩, rfl⟩
  | append_singleton xs s ih =>
    rw [pwmAnalyze_append]
    simpa [pwmAnalyze] using reported_pwmAnalyzeSample ih s

/-! ## A stream has one segmentation

Each pulse opens at the first sample above the level after the previous end and closes
at the first sample below the level after its start, so two segmentations of one
stream agree pulse by pulse, and on the end. -/

section Unique

variable {levelLimit : Int} {xs : List Int}

theorem Opens.unique {e c c' : Nat} {v v' : Int} (h : Opens levelLimit xs e c v)
    (h' : Opens levelLimit xs e c' v') : c = c' ∧ v = v' := by
  obtain ⟨he, -, hq, hv, hl⟩ := h
  obtain ⟨he', -, hq', hv', hl'⟩ := h'
  have hcc : c = c' := by
    by_contra hne
    rcases Nat.lt_or_gt_of_ne hne with hlt | hlt
    · have := hq' c he hlt; omega
    · have := hq c' he' hlt; omega
  subst hcc
  exact ⟨rfl, hv.symm.trans hv'⟩

theorem PulseAt.unique {e : Nat} {p q : Pulse} (hp : PulseAt levelLimit xs e p)
    (hq : PulseAt levelLimit xs e q) : p = q := by
  obtain ⟨hs, hv⟩ := hp.1.unique hq.1
  obtain ⟨-, hp2, -, hpf, hpl⟩ := hp
  obtain ⟨-, hq2, -, hqf, hql⟩ := hq
  have hstop : p.stop = q.stop := by
    by_contra hne
    rcases Nat.lt_or_gt_of_ne hne with hlt | hlt
    · have := hqf (p.stop - 1) (by omega) (by omega); omega
    · have := hpf (q.stop - 1) (by omega) (by omega); omega
  cases p; cases q
  simp_all

/-- What follows the last end `e` of a segmentation. -/
def Tail (levelLimit : Int) (xs : List Int) (e : Nat) : Option (Nat × Int) → Prop
  | none => NoRise levelLimit xs e xs.length
  | some (c, v) => Opens levelLimit xs e c v ∧ NoFall levelLimit xs (c + 1) xs.length

theorem segmentation_iff {ps : List Pulse} {o : Option (Nat × Int)} :
    Segmentation levelLimit xs ps o ↔
      Chain levelLimit xs 0 ps ∧ Tail levelLimit xs (lastStop 0 ps) o := by
  rcases o with _ | ⟨c, v⟩ <;> rfl

theorem Tail.not_pulseAt {e : Nat} {o : Option (Nat × Int)} (h : Tail levelLimit xs e o)
    {q : Pulse} (hq : PulseAt levelLimit xs e q) : False := by
  obtain ⟨hopen, h2, hstop, -, hlow⟩ := hq
  rcases o with _ | ⟨c, v⟩
  · obtain ⟨hle, -, -, hv, hl⟩ := hopen
    have := h q.start hle (by omega); omega
  · obtain ⟨ho, hf⟩ := h
    obtain ⟨rfl, -⟩ := ho.unique hopen
    have := hf (q.stop - 1) (by omega) (by omega); omega

theorem Tail.unique {e : Nat} {o o' : Option (Nat × Int)} (h : Tail levelLimit xs e o)
    (h' : Tail levelLimit xs e o') : o = o' := by
  rcases o with _ | ⟨c, v⟩ <;> rcases o' with _ | ⟨c', v'⟩
  · rfl
  · obtain ⟨⟨hle, hc, -, hv, hl⟩, -⟩ := h'; have := h c' hle hc; omega
  · obtain ⟨⟨hle, hc, -, hv, hl⟩, -⟩ := h; have := h' c hle hc; omega
  · obtain ⟨rfl, rfl⟩ := h.1.unique h'.1; rfl

theorem chain_tail_unique {e : Nat} {ps ps' : List Pulse} {o o' : Option (Nat × Int)}
    (h : Chain levelLimit xs e ps) (ht : Tail levelLimit xs (lastStop e ps) o)
    (h' : Chain levelLimit xs e ps') (ht' : Tail levelLimit xs (lastStop e ps') o') :
    ps = ps' ∧ o = o' := by
  induction ps generalizing e ps' with
  | nil =>
    cases ps' with
    | nil => exact ⟨rfl, ht.unique ht'⟩
    | cons q qs => exact (ht.not_pulseAt h'.1).elim
  | cons p ps ih =>
    cases ps' with
    | nil => exact (ht'.not_pulseAt h.1).elim
    | cons q qs =>
      obtain rfl := h.1.unique h'.1
      obtain ⟨rfl, rfl⟩ := ih h.2 ht h'.2 ht'
      exact ⟨rfl, rfl⟩

theorem segmentation_unique {ps ps' : List Pulse} {o o' : Option (Nat × Int)}
    (h : Segmentation levelLimit xs ps o) (h' : Segmentation levelLimit xs ps' o') :
    ps = ps' ∧ o = o' :=
  chain_tail_unique (segmentation_iff.mp h).1 (segmentation_iff.mp h).2
    (segmentation_iff.mp h').1 (segmentation_iff.mp h').2

end Unique

/-- **`pwm_analyze` prints the report of the stream's segmentation.** For every level and
every stream of fewer than `2^31` samples, so that the `int` counter holds every sample
index, from the statics' initialisers (in any number of calls), the stream has exactly
one segmentation into pulses, and the lines printed are its report, every number in it
an `int` value: for the `k`-th pulse, the distance from the previous end, the sample it
starts at with its value, the sample after the one that ends it, its length and the mean
of the first `k` lengths; then the distance and start of a pulse still open. -/
theorem pwmAnalyze_report (levelLimit : Int) (xs : List Int) (hlen : xs.length < 2 ^ 31) :
    ∃ ps o, Segmentation levelLimit xs ps o ∧
      (pwmAnalyze levelLimit .init xs).2 = analyzerReport ps o ∧
      (∀ e ∈ analyzerReport ps o, e.InRange) ∧
      ∀ ps' o', Segmentation levelLimit xs ps' o' → ps' = ps ∧ o' = o := by
  obtain ⟨ps, o, hseg, -, he⟩ := reported_pwmAnalyze levelLimit xs
  exact ⟨ps, o, hseg, he, he ▸ pwmAnalyze_events_inRange levelLimit hlen,
    fun _ _ h => segmentation_unique h hseg⟩

/-- Two pulses and two gaps at level 10000. -/
theorem pwmAnalyze_report_two_pulses :
    ([20000, 0, 0, 20000, 0] : List Int).length < 2 ^ 31 ∧
      ∃ ps o, Segmentation 10000 [20000, 0, 0, 20000, 0] ps o ∧
        (pwmAnalyze 10000 .init [20000, 0, 0, 20000, 0]).2 = analyzerReport ps o ∧
        (∀ e ∈ analyzerReport ps o, e.InRange) ∧
        ∀ ps' o', Segmentation 10000 [20000, 0, 0, 20000, 0] ps' o' → ps' = ps ∧ o' = o :=
  ⟨by decide, pwmAnalyze_report 10000 _ (by decide)⟩

/-- Two pulses: the first from sample 0 to the fall at sample 1, the second from sample 3
to the fall at 4; both of length 2, the first at distance 0 and the second at 1. -/
example : (pwmAnalyze 10000 .init [20000, 0, 0, 20000, 0]).2 =
    analyzerReport [⟨0, 20000, 2⟩, ⟨3, 20000, 5⟩] none := by decide

end Rtl433
