import Rtl433.Basic

/-!
# Rtl433 — the fixed-point low-pass filter

`low_pass_filter(x_buf, y_buf, len)` runs the first-order IIR recurrence

`y[i] = ((a[1]*y[i-1]>>1) + (b[0]*x[i]>>1) + (b[1]*x[i-1]>>1)) >> (F_SCALE-1)`

over a block of `uint16_t` envelope samples, storing each output in an `int16_t` cell.
The first output reads its history from `y_buf[-1]` and `lp_xmem[0]`; at the end the
call copies `x_buf[len-1-FILTER_ORDER]` and `y_buf[len-1-FILTER_ORDER]` back into
those two cells for the next call.

* `lowPassRun` — the outputs of one call; `lowPassFilter` — the call with its history
  copy, `none` where the `uint32_t` copy index leaves the block;
* `lowPassAcc_eq_wideStep` — the pre-shifted arithmetic loses nothing: all three
  coefficients are even, so each halving is exact and the two shifts compose to one;
* `lowPassRun_eq_wideRun` — on int16 history and inputs in `[0, 32768]` the outputs are
  those of the wide-accumulator recurrence (no store ever wraps);
* `lowPassCalls_in_range` — from the zero state, over any sequence of calls on envelope
  values, every product and partial sum fits an `int` and every output is in
  `[0, 32767]`;
* `lowPassRun_append` — the recurrence itself is continuous across a split when the
  *last* input and output are carried; `lowPassCalls_split_drops_last` shows that the
  copy at index `len-1-FILTER_ORDER` carries the second-to-last ones instead.
-/

namespace Rtl433

/-! ## The recurrence -/

/-- The history `low_pass_filter` carries between calls: `lp_xmem[0]` (a `uint16_t`) and
`y_buf[-1]`, i.e. `filter_buffer[0]` (an `int16_t`). -/
structure LpState where
  xmem : Nat
  yPrev : Int
deriving DecidableEq, Repr

/-- The history the program starts with: `lp_xmem` and `filter_buffer` are zero. -/
def LpState.zero : LpState := ⟨0, 0⟩

/-- The `int` value of one output before its store, with `>>` the arithmetic shift. -/
def lowPassAcc (yPrev : Int) (x xPrev : Nat) : Int :=
  ((a 1 * yPrev) >>> (1 : Nat) + (b 0 * x) >>> (1 : Nat) + (b 1 * xPrev) >>> (1 : Nat)) >>>
    (fScale - 1)

/-- One output as the `int16_t` cell holds it. -/
def lowPassStep (yPrev : Int) (x xPrev : Nat) : Int := toInt16 (lowPassAcc yPrev x xPrev)

/-- The outputs written to `y_buf[0..len)`: the first from the history
`(y_buf[-1], lp_xmem[0])`, each later one from the previous output and input. -/
def lowPassRun (yPrev : Int) (xPrev : Nat) : List Nat → List Int
  | [] => []
  | x :: xs => lowPassStep yPrev x xPrev :: lowPassRun (lowPassStep yPrev x xPrev) x xs

/-- `low_pass_filter(x_buf, y_buf, len)`: the outputs, and the history the two `memcpy`s
leave for the next call. The copy index `len-1-FILTER_ORDER` is `uint32_t`; for
`len < 2` it wraps far past the block, and the call has no defined result. -/
def lowPassFilter (st : LpState) (xs : List Nat) : Option (List Int × LpState) :=
  let ys := lowPassRun st.yPrev st.xmem xs
  if 1 + filterOrder ≤ xs.length then
    some (ys, ⟨xs.getD (xs.length - 1 - filterOrder) 0, ys.getD (xs.length - 1 - filterOrder) 0⟩)
  else none

/-- Consecutive calls, one per block, threading the history. -/
def lowPassCalls (st : LpState) : List (List Nat) → Option (List (List Int) × LpState)
  | [] => some ([], st)
  | xs :: rest =>
    match lowPassFilter st xs with
    | none => none
    | some (ys, st') => (lowPassCalls st' rest).map fun r => (ys :: r.1, r.2)

@[simp] theorem length_lowPassRun (yPrev : Int) (xPrev : Nat) (xs : List Nat) :
    (lowPassRun yPrev xPrev xs).length = xs.length := by
  induction xs generalizing yPrev xPrev <;> simp [lowPassRun, *]

/-- A call that returns hands back the recurrence over its whole block. -/
theorem lowPassFilter_fst {st st' : LpState} {xs : List Nat} {ys : List Int}
    (h : lowPassFilter st xs = some (ys, st')) : ys = lowPassRun st.yPrev st.xmem xs := by
  unfold lowPassFilter at h
  split_ifs at h
  exact (Prod.mk.inj (Option.some.inj h)).1.symm

/-- A call on at least two samples returns one output per sample. -/
theorem lowPassFilter_of_two_le (st : LpState) {xs : List Nat} (h : 2 ≤ xs.length) :
    ∃ ys st', lowPassFilter st xs = some (ys, st') ∧ ys.length = xs.length := by
  rw [lowPassFilter, if_pos (by rw [filterOrder_eq]; omega)]
  exact ⟨_, _, rfl, length_lowPassRun _ _ _⟩

/-- The accumulator in closed form: the halvings of the even products are exact. -/
theorem lowPassAcc_eq (yPrev : Int) (x xPrev : Nat) :
    lowPassAcc yPrev x xPrev = (15877 * yPrev + 253 * x + 253 * xPrev) / 16384 := by
  simp only [lowPassAcc, Int.shiftRight_eq_div_pow, a_one, b_zero, b_one, fScale_eq, Nat.reducePow,
    Nat.reduceSub, Nat.cast_ofNat]
  omega

/-- **Continuity of the recurrence.** Filtering `xs ++ zs` is filtering `xs`, then `zs`
from the last output and the last input of `xs`. -/
theorem lowPassRun_append (yPrev : Int) (xPrev : Nat) (xs zs : List Nat) :
    lowPassRun yPrev xPrev (xs ++ zs) =
      lowPassRun yPrev xPrev xs ++
        lowPassRun ((lowPassRun yPrev xPrev xs).getLastD yPrev) (xs.getLastD xPrev) zs := by
  induction xs generalizing yPrev xPrev with
  | nil => rfl
  | cons x xs ih =>
    rw [List.cons_append]
    simp only [lowPassRun, ih, List.getLastD_cons, List.cons_append]

/-! ## The wide-accumulator form -/

/-- The spec's wide form of one output: `(a[1]*y + b[0]*x + b[1]*xPrev) / 2^F_SCALE`,
rounded down, in unbounded integers and with no store. -/
def wideStep (yPrev : Int) (x xPrev : Nat) : Int :=
  (a 1 * yPrev + b 0 * x + b 1 * xPrev) / 2 ^ fScale

/-- The wide form of the recurrence over a block. -/
def wideRun (yPrev : Int) (xPrev : Nat) : List Nat → List Int
  | [] => []
  | x :: xs => wideStep yPrev x xPrev :: wideRun (wideStep yPrev x xPrev) x xs

/-- Pre-shifting each product and shifting the sum by `F_SCALE-1` rounds exactly as the
wide accumulator does, for every operand. -/
theorem lowPassAcc_eq_wideStep (yPrev : Int) (x xPrev : Nat) :
    lowPassAcc yPrev x xPrev = wideStep yPrev x xPrev := by
  rw [lowPassAcc_eq, wideStep, a_one, b_zero, b_one, fScale_eq]
  omega

/-- On an int16 history and inputs in `[0, 32768]` the accumulator stays in `int16_t`
range, so the store is the identity. -/
theorem lowPassStep_eq_wideStep {yPrev : Int} {x xPrev : Nat} (ylo : -32768 ≤ yPrev)
    (yhi : yPrev ≤ 32767) (hx : x ≤ 32768) (hxp : xPrev ≤ 32768) :
    lowPassStep yPrev x xPrev = wideStep yPrev x xPrev ∧
      -32768 ≤ wideStep yPrev x xPrev ∧ wideStep yPrev x xPrev ≤ 32767 := by
  have hw : -32768 ≤ wideStep yPrev x xPrev ∧ wideStep yPrev x xPrev ≤ 32767 := by
    rw [← lowPassAcc_eq_wideStep, lowPassAcc_eq]; omega
  exact ⟨by rw [lowPassStep, lowPassAcc_eq_wideStep, toInt16_of_mem hw.1 hw.2], hw⟩

/-- **The narrow filter is the wide one.** For every history with `y[-1]` an int16 value
and `lp_xmem[0] ≤ 32768`, and every block of inputs in `[0, 32768]`, the outputs of
`low_pass_filter` are those of the wide-accumulator recurrence from the same start. -/
theorem lowPassRun_eq_wideRun (yPrev : Int) (xPrev : Nat) (xs : List Nat)
    (ylo : -32768 ≤ yPrev) (yhi : yPrev ≤ 32767) (hxp : xPrev ≤ 32768)
    (hxs : ∀ x ∈ xs, x ≤ 32768) : lowPassRun yPrev xPrev xs = wideRun yPrev xPrev xs := by
  induction xs generalizing yPrev xPrev with
  | nil => rfl
  | cons x xs ih =>
    have hx := hxs x (List.mem_cons_self x xs)
    obtain ⟨heq, lo, hi⟩ := lowPassStep_eq_wideStep ylo yhi hx hxp
    simp only [lowPassRun, wideRun, heq]
    exact congrArg _ (ih _ _ lo hi hx fun z hz => hxs z (List.mem_cons_of_mem x hz))

/-- The wide form at the most negative history and a full-scale input pair. -/
theorem lowPassRun_eq_wideRun_full_scale :
    (-32768 : Int) ≤ -32768 ∧ (-32768 : Int) ≤ 32767 ∧ 32768 ≤ 32768 ∧
      lowPassRun (-32768) 32768 [32768, 0] = wideRun (-32768) 32768 [32768, 0] :=
  ⟨by decide, by decide, le_refl _,
    lowPassRun_eq_wideRun (-32768) 32768 [32768, 0] (by decide) (by decide) (le_refl _)
      (by decide)⟩

/-! ## Range of the outputs on envelope input

On inputs in `[0, 32768]` (the envelope range) and an output history in `[0, 32767]`,
every operand of the recurrence stays in a box on which all products and partial sums
fit an `int` and the accumulator lands in `[0, 32767]` (`lowPassEval_fits`). Outputs
feed back as the next operands, so the box is kept along a call
(`lowPassOperands_fits`) and, through the history copy, along any sequence of calls. -/

/-- The operands `(y[i-1], x[i], x[i-1])` of one output. -/
structure LpEval where
  yPrev : Int
  x : Nat
  xPrev : Nat
deriving DecidableEq, Repr

/-- Every intermediate `int` of the expression computing one output: the three products
and the two partial sums of the halved products. -/
def LpEval.terms (e : LpEval) : List Int :=
  [a 1 * e.yPrev, b 0 * e.x, b 1 * e.xPrev,
    (a 1 * e.yPrev) >>> (1 : Nat) + (b 0 * e.x) >>> (1 : Nat),
    (a 1 * e.yPrev) >>> (1 : Nat) + (b 0 * e.x) >>> (1 : Nat) + (b 1 * e.xPrev) >>> (1 : Nat)]

/-- One evaluation is defined and its store exact: every intermediate fits an `int`,
and the accumulator lies in `[0, 32767]`, so the `int16_t` store neither wraps nor goes
negative. -/
def LpEval.Fits (e : LpEval) : Prop :=
  (∀ t ∈ e.terms, FitsInt32 t) ∧ 0 ≤ lowPassAcc e.yPrev e.x e.xPrev ∧
    lowPassAcc e.yPrev e.x e.xPrev ≤ 32767

/-- The operands of each output of one call. -/
def lowPassOperands (yPrev : Int) (xPrev : Nat) : List Nat → List LpEval
  | [] => []
  | x :: xs => ⟨yPrev, x, xPrev⟩ :: lowPassOperands (lowPassStep yPrev x xPrev) x xs

/-- The operands of every output computed along consecutive calls. -/
def lowPassCallsOperands (st : LpState) : List (List Nat) → List LpEval
  | [] => []
  | xs :: rest =>
    lowPassOperands st.yPrev st.xmem xs ++
      match lowPassFilter st xs with
      | none => []
      | some (_, st') => lowPassCallsOperands st' rest

/-- The history box: output memory in `[0, 32767]`, input memory in `[0, 32768]`. -/
def LpState.InRange (st : LpState) : Prop := 0 ≤ st.yPrev ∧ st.yPrev ≤ 32767 ∧ st.xmem ≤ 32768

theorem lowPassEval_fits {yPrev : Int} {x xPrev : Nat} (ylo : 0 ≤ yPrev) (yhi : yPrev ≤ 32767)
    (hx : x ≤ 32768) (hxp : xPrev ≤ 32768) : (LpEval.mk yPrev x xPrev).Fits := by
  refine ⟨?_, ?_⟩
  · simp only [LpEval.terms, List.mem_cons, List.mem_singleton, List.not_mem_nil, or_false,
      a_one, b_zero, b_one, Int.shiftRight_eq_div_pow]
    rintro t (rfl | rfl | rfl | rfl | rfl) <;> (simp only [FitsInt32, Nat.reducePow, Nat.cast_ofNat]; omega)
  · dsimp only; rw [lowPassAcc_eq]; omega

/-- Inside the box the store is exact: the output is the accumulator. -/
theorem lowPassStep_of_fits {yPrev : Int} {x xPrev : Nat} (h : (LpEval.mk yPrev x xPrev).Fits) :
    lowPassStep yPrev x xPrev = lowPassAcc yPrev x xPrev :=
  toInt16_of_mem (le_trans (by decide) h.2.1) h.2.2

/-- Along one call on envelope input from a history in the box, every evaluation fits and
every output lies in `[0, 32767]`. -/
theorem lowPassOperands_fits (yPrev : Int) (xPrev : Nat) (xs : List Nat) (ylo : 0 ≤ yPrev)
    (yhi : yPrev ≤ 32767) (hxp : xPrev ≤ 32768) (hxs : ∀ x ∈ xs, x ≤ 32768) :
    (∀ e ∈ lowPassOperands yPrev xPrev xs, e.Fits) ∧
      ∀ y ∈ lowPassRun yPrev xPrev xs, 0 ≤ y ∧ y ≤ 32767 := by
  induction xs generalizing yPrev xPrev with
  | nil => simp [lowPassOperands, lowPassRun]
  | cons x xs ih =>
    have hx := hxs x (List.mem_cons_self x xs)
    have hfit := lowPassEval_fits ylo yhi hx hxp
    have hstep := lowPassStep_of_fits hfit
    obtain ⟨hops, hys⟩ := ih (lowPassStep yPrev x xPrev) x (by rw [hstep]; exact hfit.2.1)
      (by rw [hstep]; exact hfit.2.2) hx fun z hz => hxs z (List.mem_cons_of_mem x hz)
    refine ⟨?_, ?_⟩
    · simpa [lowPassOperands, hfit] using hops
    · simp only [lowPassRun, List.mem_cons, forall_eq_or_imp]
      exact ⟨by rw [hstep]; exact ⟨hfit.2.1, hfit.2.2⟩, hys⟩

theorem getD_of_forall {α : Type} {P : α → Prop} {l : List α} {d : α} (hl : ∀ x ∈ l, P x)
    (hd : P d) (i : Nat) : P (l.getD i d) := by
  rw [List.getD_eq_getElem?_getD]
  cases h : l[i]? with
  | none => exact hd
  | some x => exact hl x (List.getElem?_mem h)

/-- Consecutive calls on envelope blocks of at least two samples, from any history in the
box: every call is defined, every evaluation fits, every output is in `[0, 32767]`, and
the history stays in the box. -/
theorem lowPassCalls_fits (st : LpState) (hst : st.InRange) (calls : List (List Nat))
    (hlen : ∀ xs ∈ calls, 2 ≤ xs.length) (hx : ∀ xs ∈ calls, ∀ x ∈ xs, x ≤ 32768) :
    (∀ e ∈ lowPassCallsOperands st calls, e.Fits) ∧
      ∃ yss st', lowPassCalls st calls = some (yss, st') ∧
        (∀ ys ∈ yss, ∀ y ∈ ys, 0 ≤ y ∧ y ≤ 32767) ∧ st'.InRange := by
  induction calls generalizing st with
  | nil => exact ⟨by simp [lowPassCallsOperands], [], st, rfl, by simp, hst⟩
  | cons xs rest ih =>
    have hxs := hx xs (List.mem_cons_self xs rest)
    obtain ⟨hops, hys⟩ := lowPassOperands_fits st.yPrev st.xmem xs hst.1 hst.2.1 hst.2.2 hxs
    have hfilter : lowPassFilter st xs = some (lowPassRun st.yPrev st.xmem xs,
        ⟨xs.getD (xs.length - 2) 0, (lowPassRun st.yPrev st.xmem xs).getD (xs.length - 2) 0⟩) := by
      simp [lowPassFilter, hlen xs (List.mem_cons_self xs rest), Nat.sub_sub]
    have hst' : LpState.InRange ⟨xs.getD (xs.length - 2) 0,
        (lowPassRun st.yPrev st.xmem xs).getD (xs.length - 2) 0⟩ :=
      ⟨(getD_of_forall (P := fun y => 0 ≤ y ∧ y ≤ 32767) hys (by decide) _).1,
        (getD_of_forall (P := fun y => 0 ≤ y ∧ y ≤ 32767) hys (by decide) _).2,
        getD_of_forall hxs (Nat.zero_le _) _⟩
    obtain ⟨hops', yss, st', hcalls, hyss, hfin⟩ := ih _ hst'
      (fun ys h => hlen ys (List.mem_cons_of_mem xs h)) (fun ys h => hx ys (List.mem_cons_of_mem xs h))
    refine ⟨?_, lowPassRun st.yPrev st.xmem xs :: yss, st', by
      simp only [lowPassCalls, hfilter, hcalls, Option.map_some'],
      ?_, hfin⟩
    · simp only [lowPassCallsOperands, hfilter, List.mem_append]
      rintro e (he | he)
      exacts [hops e he, hops' e he]
    · simp only [List.mem_cons, forall_eq_or_imp]
      exact ⟨hys, hyss⟩

/-- **No overflow, no wrap, no negative output.** Over every sequence of
`low_pass_filter` calls from the zero history the program starts with, each on at least
two envelope values in `[0, 32768]`: every product and partial sum of every evaluation
fits a signed 32-bit `int`, every accumulator lies in `[0, 32767]` so that its `int16_t`
store is exact, every output lies in `[0, 32767]`, and so does the carried history. -/
theorem lowPassCalls_in_range (calls : List (List Nat)) (hlen : ∀ xs ∈ calls, 2 ≤ xs.length)
    (hx : ∀ xs ∈ calls, ∀ x ∈ xs, x ≤ 32768) :
    (∀ e ∈ lowPassCallsOperands LpState.zero calls, e.Fits) ∧
      ∃ yss st, lowPassCalls LpState.zero calls = some (yss, st) ∧
        (∀ ys ∈ yss, ∀ y ∈ ys, 0 ≤ y ∧ y ≤ 32767) ∧ st.InRange :=
  lowPassCalls_fits LpState.zero ⟨le_refl _, by decide, Nat.zero_le _⟩ calls hlen hx

/-- Two full-scale blocks from the start. -/
theorem lowPassCalls_in_range_full_scale :
    (∀ xs ∈ [[32768, 32768], [32768, 32768]], 2 ≤ xs.length) ∧
      (∀ xs ∈ [[32768, 32768], [32768, 32768]], ∀ x ∈ xs, x ≤ 32768) ∧
      (∀ e ∈ lowPassCallsOperands LpState.zero [[32768, 32768], [32768, 32768]], e.Fits) :=
  ⟨by decide, by decide,
    (lowPassCalls_in_range [[32768, 32768], [32768, 32768]] (by decide) (by decide)).1⟩

/-! ## The history copy -/

/-- **The carried history is the second-to-last sample.** `memcpy` from
`x_buf[len-1-FILTER_ORDER]` and `y_buf[len-1-FILTER_ORDER]` copies index `len-2`, so a
block split changes the output: `[0, 32768]` then `[0, 0]` gives `0, 506, 0, 0`, while
the same four samples in one call give `0, 506, 996, 965`. -/
theorem lowPassCalls_split_drops_last :
    lowPassCalls LpState.zero [[0, 32768], [0, 0]] = some ([[0, 506], [0, 0]], ⟨0, 0⟩) ∧
      lowPassCalls LpState.zero [[0, 32768, 0, 0]] = some ([[0, 506, 996, 965]], ⟨0, 996⟩) := by
  decide

/-- Zeros in, zeros out, from zero history. -/
theorem lowPassRun_zeros (n : Nat) : lowPassRun 0 0 (List.replicate n 0) = List.replicate n 0 := by
  induction n with
  | zero => rfl
  | succ n ih => simp only [List.replicate_succ, lowPassRun, show lowPassStep 0 0 0 = 0 by decide, ih]

theorem getD_replicate_append {α : Type} (a : α) (k : Nat) (l : List α) {i : Nat} (hi : i < k) :
    (List.replicate k a ++ l).getD i a = a := by
  simp [List.getElem?_append_left, List.getElem?_replicate, hi]

/-- **A step on the last sample of a call is lost, at every call length.** From zero
history, a call of `n ≥ 1` zeros then `x`, and a call of `m ≥ 2` zeros: the first call
carries the history of its last zero, so the second starts from zero and outputs zeros,
while one call over the same samples goes on from the step. -/
theorem lowPassCalls_step_split (n m x : Nat) (hn : 1 ≤ n) (hm : 2 ≤ m) :
    lowPassCalls .zero [List.replicate n 0 ++ [x], List.replicate m 0] =
        some ([List.replicate n 0 ++ [lowPassStep 0 x 0], List.replicate m 0], ⟨0, 0⟩) ∧
      (lowPassRun 0 0 (List.replicate n 0 ++ [x] ++ List.replicate m 0)).getD (n + 1) 0 =
        lowPassStep (lowPassStep 0 x 0) 0 x := by
  obtain ⟨k, rfl⟩ : ∃ k, n = k + 1 := ⟨n - 1, by omega⟩
  obtain ⟨j, rfl⟩ : ∃ j, m = j + 1 := ⟨m - 1, by omega⟩
  have hfirst : lowPassRun 0 0 (List.replicate (k + 1) 0 ++ [x]) =
      List.replicate (k + 1) 0 ++ [lowPassStep 0 x 0] := by
    rw [lowPassRun_append, lowPassRun_zeros]
    simp [lowPassRun, List.replicate_succ']
  constructor
  · simp only [lowPassCalls, lowPassFilter, LpState.zero, hfirst, filterOrder_eq, List.length_append,
      List.length_replicate, List.length_singleton, show k + 1 + 1 - 1 - 1 = k by omega,
      getD_replicate_append _ _ _ (Nat.lt_succ_self k), lowPassRun_zeros]
    simp [hm, lowPassRun_zeros, List.getElem?_replicate, show j - 1 < j + 1 by omega]
  · rw [lowPassRun_append, hfirst, List.getD_append_right _ _ _ _ (by simp), List.getLastD_concat,
      List.getLastD_concat, List.length_append, List.length_replicate, List.length_singleton,
      Nat.sub_self, List.replicate_succ, lowPassRun, List.getD_cons_zero]

/-- The same at the block size the driver delivers: calls of 256 samples, a 512-byte
block without decimation, the first ending on a full-scale sample. -/
theorem lowPassCalls_split_drops_last_full_blocks :
    lowPassCalls .zero [List.replicate 255 0 ++ [32768], List.replicate 256 0] =
        some ([List.replicate 255 0 ++ [506], List.replicate 256 0], ⟨0, 0⟩) ∧
      (lowPassRun 0 0 (List.replicate 255 0 ++ [32768] ++ List.replicate 256 0)).getD 256 0 = 996 := by
  have h := lowPassCalls_step_split 255 256 32768 (by norm_num) (by norm_num)
  rwa [show lowPassStep 0 32768 0 = 506 by decide, show lowPassStep 506 0 32768 = 996 by decide] at h

end Rtl433
