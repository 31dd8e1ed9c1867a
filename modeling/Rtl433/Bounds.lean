import Rtl433.Stream

/-!
# Rtl433 — the array accesses of one callback

Every index the callback computes, in the order the source computes it, with the buffer
it falls in: the delivered block (`buf`, read as bytes and as `uint16_t` slots through
`sample_buffer`/`x_buf`), `filter_buffer` (through `f_buf`/`y_buf`, which start one cell
in), and `lp_xmem`.

* `callbackAccesses` — the accesses of `envelope_detect`, `low_pass_filter`, the
  consumers and the raw sink for one block;
* `callbackAccesses_inBounds` — when the filtered block has at least `FILTER_ORDER + 1`
  samples, every access lies inside its buffer, for every block of at most
  `MAXIMAL_BUF_LENGTH` bytes, budget and decimation;
* `historyIndex` — otherwise the history copy's `len-1-FILTER_ORDER` wraps in
  `uint32_t`, where the callback model has no result, and `-n 1` reaches it on the
  first block.
-/

namespace Rtl433

/-- The buffers the callback indexes. -/
inductive Region where
  | block
  | filterBuffer
  | lpXmem
deriving DecidableEq, Repr

/-- One array access: the buffer and the element index in it (bytes for the block). -/
structure Access where
  region : Region
  index : Nat
deriving DecidableEq, Repr

/-- The number of elements of each buffer, for a delivered block of `blockLen` bytes:
`filter_buffer` is `int16_t[MAXIMAL_BUF_LENGTH+FILTER_ORDER]`, `lp_xmem` is
`uint16_t[FILTER_ORDER]`. -/
def Region.size (blockLen : Nat) : Region → Nat
  | .block => blockLen
  | .filterBuffer => maximalBufLength + filterOrder
  | .lpXmem => filterOrder

/-- The access lies inside its buffer. -/
def Access.InBounds (blockLen : Nat) (acc : Access) : Prop := acc.index < acc.region.size blockLen

instance (blockLen : Nat) (acc : Access) : Decidable (acc.InBounds blockLen) :=
  inferInstanceAs (Decidable (_ < _))

/-- `uint16_t` slot `k` of the block: its two bytes. -/
def slot (k : Nat) : List Access := [⟨.block, 2 * k⟩, ⟨.block, 2 * k + 1⟩]

/-- `f_buf[i]`, alias `y_buf[i]`: cell `FILTER_ORDER + i` of `filter_buffer`. -/
def fBuf (i : Nat) : Access := ⟨.filterBuffer, filterOrder + i⟩

/-- `envelope_detect(buf, len, d)`: iteration `op` reads `buf[2*i]` and `buf[2*i+1]` for
`i = op * 2^d` and writes `sample_buffer[op]`. -/
def envelopeDetectAccesses (len d : Nat) : List Access :=
  (List.range (envelopeCount len d)).flatMap fun op =>
    [⟨.block, 2 * (op * 2 ^ d)⟩, ⟨.block, 2 * (op * 2 ^ d) + 1⟩] ++ slot op

/-- The history copy's start index `len-1-FILTER_ORDER`, in `uint32_t`. -/
def historyIndex (n : Nat) : Nat := wrap32 ((n : Int) - 1 - filterOrder)

/-- `low_pass_filter(x_buf, y_buf, n)`: the first output from `y_buf[-1]`, `x_buf[0]`
and `lp_xmem[0]`; output `i` from `y_buf[i-1]`, `x_buf[i]`, `x_buf[i-1]`; then the two
`memcpy`s of the history from index `len-1-FILTER_ORDER`. -/
def lowPassFilterAccesses (n : Nat) : List Access :=
  [⟨.filterBuffer, 0⟩] ++ slot 0 ++ [⟨.lpXmem, 0⟩, fBuf 0] ++
    (List.range (n - 1)).flatMap (fun j => [fBuf j] ++ slot (j + 1) ++ slot j ++ [fBuf (j + 1)]) ++
    slot (historyIndex n) ++ [⟨.lpXmem, 0⟩, fBuf (historyIndex n), ⟨.filterBuffer, 0⟩]

/-- The consumers' reads `buf[i]`, `i < len/2`, of `f_buf`. -/
def consumerAccesses (len : Nat) : List Access := (List.range (len / 2)).map fBuf

/-- `fwrite(demod->f_buf, 1, len >> d, file)`: byte `k` lies in cell `k / 2`. -/
def sinkAccesses (len d : Nat) : List Access := (List.range (len >>> d)).map fun k => fBuf (k / 2)

/-- The accesses of one callback on a delivered block of `blockLen` bytes that passes the
budget gate: the block is cut as `budgetCut` says, and runs through the pipeline. -/
def callbackAccesses (cfg : Config) (bytesToRead blockLen : Nat) : List Access :=
  match budgetCut false bytesToRead blockLen with
  | none => []
  | some (len, _) =>
    envelopeDetectAccesses len cfg.decimationLevel ++
      lowPassFilterAccesses (len >>> (cfg.decimationLevel + 1)) ++ consumerAccesses len ++
      if cfg.saveData then sinkAccesses len cfg.decimationLevel else []

/-! ## The history index -/

theorem historyIndex_of_le {n : Nat} (hn : 1 + filterOrder ≤ n) (hn' : n < 2 ^ 32) :
    historyIndex n = n - 1 - filterOrder := by
  simp only [historyIndex, wrap32, filterOrder_eq] at hn ⊢
  omega

/-! ## Every access in bounds

Each stage is bounded by the length `len ≤ blockLen` the gate lets through: the envelope
loop stays below `len/2` slots, the filter below its `len >> (d+1) ≤ len/2` samples, the
consumers and the sink below `len/2` cells of `f_buf`. Only the history copy needs the
filtered block to hold `FILTER_ORDER + 1` samples. -/

section InBounds

variable {blockLen len : Nat} (hlen : len ≤ blockLen) (hblk : blockLen ≤ maximalBufLength)
include hlen

theorem slot_inBounds {k : Nat} (hk : 2 * k + 1 < len) : ∀ acc ∈ slot k, acc.InBounds blockLen := by
  simp only [slot, List.mem_cons, List.mem_singleton, List.not_mem_nil, or_false]
  rintro _ (rfl | rfl) <;> simp only [Access.InBounds, Region.size] <;> omega

theorem envelopeDetectAccesses_inBounds (d : Nat) :
    ∀ acc ∈ envelopeDetectAccesses len d, acc.InBounds blockLen := by
  simp only [envelopeDetectAccesses, List.mem_flatMap, List.mem_range, List.mem_append]
  rintro acc ⟨op, hop, hacc | hacc⟩
  · have hop := lt_envelopeCount_iff.mp hop
    simp only [List.mem_cons, List.mem_singleton, List.not_mem_nil, or_false] at hacc
    rcases hacc with rfl | rfl <;> simp only [Access.InBounds, Region.size] <;> omega
  · have hop := lt_envelopeCount_iff.mp hop
    have hle : op ≤ op * 2 ^ d := Nat.le_mul_of_pos_right op (Nat.two_pow_pos d)
    exact slot_inBounds hlen (by omega) acc hacc

include hblk

theorem fBuf_inBounds {i : Nat} (hi : i < len / 2) : (fBuf i).InBounds blockLen := by
  simp only [fBuf, Access.InBounds, Region.size, maximalBufLength, filterOrder_eq] at hblk ⊢
  omega

theorem lowPassFilterAccesses_inBounds (d : Nat) (hn : 1 + filterOrder ≤ len >>> (d + 1)) :
    ∀ acc ∈ lowPassFilterAccesses (len >>> (d + 1)), acc.InBounds blockLen := by
  have hnle : len >>> (d + 1) ≤ len / 2 := by
    rw [Nat.shiftRight_eq_div_pow, pow_succ, ← Nat.div_div_eq_div_mul]
    exact Nat.div_le_div_right (Nat.div_le_self _ _)
  have hfo : filterOrder = 1 := rfl
  have hh := historyIndex_of_le hn (by simp only [maximalBufLength] at hblk; omega)
  have hslot : ∀ k < len >>> (d + 1), ∀ acc ∈ slot k, acc.InBounds blockLen :=
    fun k hk => slot_inBounds hlen (by omega)
  have hcell : ∀ k < len >>> (d + 1), (fBuf k).InBounds blockLen :=
    fun k hk => fBuf_inBounds hlen hblk (by omega)
  have hfb0 : (⟨.filterBuffer, 0⟩ : Access).InBounds blockLen := by
    simp only [Access.InBounds, Region.size, maximalBufLength, filterOrder_eq]; omega
  have hlp0 : (⟨.lpXmem, 0⟩ : Access).InBounds blockLen := by
    simp only [Access.InBounds, Region.size, filterOrder_eq]; omega
  intro acc hacc
  simp only [lowPassFilterAccesses, List.mem_append, List.mem_flatMap, List.mem_range] at hacc
  rcases hacc with ((((h | h) | h) | ⟨j, hj, ((h | h) | h) | h⟩) | h) | h
  all_goals first
    | exact hslot _ (by omega) _ h
    | (simp only [List.mem_cons, List.mem_singleton, List.not_mem_nil, or_false] at h
       rcases h with rfl | rfl | rfl <;> first | exact hfb0 | exact hlp0 | exact hcell _ (by omega))

theorem consumerAccesses_inBounds : ∀ acc ∈ consumerAccesses len, acc.InBounds blockLen := by
  simp only [consumerAccesses, List.mem_map, List.mem_range]
  rintro _ ⟨i, hi, rfl⟩
  exact fBuf_inBounds hlen hblk hi

theorem sinkAccesses_inBounds (d : Nat) : ∀ acc ∈ sinkAccesses len d, acc.InBounds blockLen := by
  simp only [sinkAccesses, List.mem_map, List.mem_range, Nat.shiftRight_eq_div_pow]
  rintro _ ⟨k, hk, rfl⟩
  have : len / 2 ^ d ≤ len := Nat.div_le_self _ _
  simp only [fBuf, Access.InBounds, Region.size, maximalBufLength, filterOrder_eq] at hblk ⊢
  omega

end InBounds

/-- Without `do_exit` the gate always lets a block through, at most as long as it is. -/
theorem budgetCut_open (bytesToRead len : Nat) :
    ∃ l cut, budgetCut false bytesToRead len = some (l, cut) ∧ l ≤ len := by
  simp only [budgetCut, Bool.false_eq_true, if_false]
  split
  · exact ⟨_, _, rfl, by omega⟩
  · exact ⟨_, _, rfl, le_rfl⟩

/-- **Every access of a callback lies inside its buffer** once the filtered block holds
`FILTER_ORDER + 1` samples: for every delivered block of at most `MAXIMAL_BUF_LENGTH`
bytes, every budget and every decimation exponent. -/
theorem callbackAccesses_inBounds (cfg : Config) (bytesToRead blockLen : Nat)
    (hblk : blockLen ≤ maximalBufLength)
    (hn : ∀ len cut, budgetCut false bytesToRead blockLen = some (len, cut) →
      1 + filterOrder ≤ len >>> (cfg.decimationLevel + 1)) :
    ∀ acc ∈ callbackAccesses cfg bytesToRead blockLen, acc.InBounds blockLen := by
  obtain ⟨len, cut, hcut, hlen⟩ := budgetCut_open bytesToRead blockLen
  intro acc hacc
  simp only [callbackAccesses, hcut, List.mem_append] at hacc
  rcases hacc with ((h | h) | h) | h
  · exact envelopeDetectAccesses_inBounds hlen _ acc h
  · exact lowPassFilterAccesses_inBounds hlen hblk _ (hn len cut hcut) acc h
  · exact consumerAccesses_inBounds hlen hblk acc h
  · split at h
    exacts [sinkAccesses_inBounds hlen hblk _ acc h, absurd h (List.not_mem_nil acc)]

/-- The smallest live block, `MINIMAL_BUF_LENGTH` bytes, in decode mode without a budget. -/
theorem callbackAccesses_inBounds_minimal :
    (callbackAccesses decodeConfig 0 minimalBufLength).Forall (Access.InBounds minimalBufLength) :=
  List.forall_iff_forall_mem.mpr <|
    callbackAccesses_inBounds decodeConfig 0 minimalBufLength (by decide) fun len cut h => by
      simp only [budgetCut] at h; cases h; decide

/-- **`-n 1` reads far outside the block.** The budget of 2 bytes cuts the first block to
one sample, `low_pass_filter` gets `n = 1`, and its history copy starts at
`len-1-FILTER_ORDER = 4294967295`: byte 8589934590 of a block of `DEFAULT_BUF_LENGTH`
bytes. The callback model has no result there. -/
theorem callback_n_one_reads_outside :
    historyIndex (2 >>> (0 + 1)) = 4294967295 ∧
      (⟨.block, 8589934590⟩ : Access) ∈ callbackAccesses decodeConfig (nOption 1) defaultBufLength ∧
      ¬ (⟨.block, 8589934590⟩ : Access).InBounds defaultBufLength ∧
      (rtlsdrCallback decodeConfig (.init (nOption 1)) (fun _ => 0) defaultBufLength).isNone := by
  decide

/-! ## The block size

`main` checks `-b` against `[MINIMAL_BUF_LENGTH, MAXIMAL_BUF_LENGTH]` and falls back to
the default outside it, so every live block meets the size bound the access theorem
above assumes. -/

/-- `out_block_size` after the check in `main`: a `-b` value outside
`[MINIMAL_BUF_LENGTH, MAXIMAL_BUF_LENGTH]` falls back to `DEFAULT_BUF_LENGTH`. -/
def outBlockSize (requested : Nat) : Nat :=
  if requested < minimalBufLength ∨ requested > maximalBufLength then defaultBufLength
  else requested

example : outBlockSize 100 = defaultBufLength ∧ outBlockSize 600 = 600 := by decide

end Rtl433
