import Rtl433.Basic

/-!
# Rtl433 — the in-place envelope detector

`envelope_detect(buf, len, decimate)` turns interleaved IQ bytes into one `uint16_t`
squared magnitude per retained complex sample, keeping every `2^decimate`-th one, and
writes the results **into the buffer it is reading**: iteration `op` reads the bytes
`2*i`, `2*i+1` with `i = op * 2^decimate` and overwrites the bytes `2*op`, `2*op+1`.

## The crux

The aliasing is harmless because the write cursor never overtakes the read cursor: the
write stride is 2 bytes, the read stride `2 * 2^decimate`. `EnvelopeInv` states it as a
loop invariant — after `j` iterations the slots below `j` hold their values, and every
byte from `2*j` on is still the caller's — and `envelopeInv_step` keeps it, since the
next read at `2*(j*stride)` lies at or above `2*j`.

* `envelopeDetect` — the loop over a byte memory `Nat → UInt8`, read indices `i` and
  write slots `op` as in the source;
* `envelopeDetectLoop_slot` — the loop lemma, by induction on the iterations left;
* `envelopeDetect_slots` — the headline: the first `⌈(len/2) / 2^d⌉` slots hold the
  squared magnitudes of the *original* bytes, each in `[0, 32768]`.
-/

namespace Rtl433

/-! ## Bytes and `uint16_t` slots -/

/-- `(signed char)v`: a byte read as two's complement. -/
def signedChar (v : UInt8) : Int :=
  if v.toNat < 128 then v.toNat else (v.toNat : Int) - 256

theorem signedChar_mem (v : UInt8) : -128 ≤ signedChar v ∧ signedChar v ≤ 127 := by
  have := v.toNat_lt
  unfold signedChar; split <;> omega

set_option maxRecDepth 4000 in
private theorem signedChar_xor_fin :
    ∀ n : Fin 256, signedChar (UInt8.ofNat n.val ^^^ 0x80) = (n.val : Int) - 128 := by
  decide

/-- The bias correction `x ^ 0x80` read as `signed char` is `x - 128`. -/
theorem signedChar_xor (x : UInt8) : signedChar (x ^^^ 0x80) = (x.toNat : Int) - 128 := by
  have hx : UInt8.ofNat x.toNat = x := UInt8.ext (UInt8.toNat_ofNat_of_lt x.toNat_lt)
  simpa [hx] using signedChar_xor_fin ⟨x.toNat, x.toNat_lt⟩

/-- `((uint16_t*)buf)[k] = v`: the two bytes of slot `k`, low byte first. -/
def storeU16 (buf : Nat → UInt8) (k : Nat) (v : Int) : Nat → UInt8 :=
  let w := (v % 65536).toNat
  Function.update (Function.update buf (2 * k) (UInt8.ofNat (w % 256))) (2 * k + 1)
    (UInt8.ofNat (w / 256))

/-- `((uint16_t*)buf)[k]`, read back low byte first. -/
def loadU16 (buf : Nat → UInt8) (k : Nat) : Nat :=
  (buf (2 * k)).toNat + 256 * (buf (2 * k + 1)).toNat

theorem storeU16_apply_of_ne {buf : Nat → UInt8} {k p : Nat} (v : Int)
    (h0 : p ≠ 2 * k) (h1 : p ≠ 2 * k + 1) : storeU16 buf k v p = buf p := by
  simp [storeU16, Function.update_apply, h0, h1]

theorem loadU16_storeU16_self (buf : Nat → UInt8) (k : Nat) {v : Int}
    (lo : 0 ≤ v) (hi : v < 65536) : (loadU16 (storeU16 buf k v) k : Int) = v := by
  have hw : ((v % 65536).toNat : Int) = v := by omega
  have h1 : (v % 65536).toNat % 256 < UInt8.size := by simp [UInt8.size]; omega
  have h2 : (v % 65536).toNat / 256 < UInt8.size := by simp [UInt8.size]; omega
  simp only [loadU16, storeU16, Function.update_apply, if_pos, show 2 * k ≠ 2 * k + 1 by omega,
    if_false, UInt8.toNat_ofNat_of_lt h1, UInt8.toNat_ofNat_of_lt h2]
  omega

theorem loadU16_storeU16_of_ne (buf : Nat → UInt8) {j k : Nat} (v : Int) (h : j ≠ k) :
    loadU16 (storeU16 buf k v) j = loadU16 buf j := by
  simp only [loadU16]
  rw [storeU16_apply_of_ne v (by omega) (by omega), storeU16_apply_of_ne v (by omega) (by omega)]

/-! ## The loop -/

/-- The value iteration `i` computes: `var_i*var_i + var_r*var_r` of the bias-corrected
pair `var_r = buf[2*i]^0x80`, `var_i = buf[2*i+1]^0x80`. -/
def envelopeSample (buf : Nat → UInt8) (i : Nat) : Int :=
  let varR := buf (2 * i) ^^^ 0x80
  let varI := buf (2 * i + 1) ^^^ 0x80
  signedChar varI * signedChar varI + signedChar varR * signedChar varR

theorem signedChar_mul_self_le (v : UInt8) : signedChar v * signedChar v ≤ 16384 := by
  obtain ⟨h0, h1⟩ := signedChar_mem v
  nlinarith

theorem envelopeSample_mem (buf : Nat → UInt8) (i : Nat) :
    0 ≤ envelopeSample buf i ∧ envelopeSample buf i ≤ 32768 :=
  ⟨add_nonneg (mul_self_nonneg _) (mul_self_nonneg _),
    by simp only [envelopeSample]; linarith [signedChar_mul_self_le (buf (2 * i) ^^^ 0x80),
      signedChar_mul_self_le (buf (2 * i + 1) ^^^ 0x80)]⟩

/-- The `for (i=0 ; i<len/2 ; i+=stride)` loop with its write cursor `op`, run for at
most `fuel` iterations; `half` is `len/2`. -/
def envelopeDetectLoop (half stride : Nat) :
    (fuel i op : Nat) → (Nat → UInt8) → Nat → UInt8
  | 0, _, _, buf => buf
  | fuel + 1, i, op, buf =>
    if i < half then
      envelopeDetectLoop half stride fuel (i + stride) (op + 1)
        (storeU16 buf op (envelopeSample buf i))
    else buf

/-- `envelope_detect(buf, len, decimate)`, with `stride = 1<<decimate`. The loop runs at
most `len/2` times, which bounds the fuel. -/
def envelopeDetect (buf : Nat → UInt8) (len decimate : Nat) : Nat → UInt8 :=
  envelopeDetectLoop (len / 2) (2 ^ decimate) (len / 2) 0 0 buf

/-- The number of slots the loop writes: `⌈(len/2) / 2^d⌉`. -/
def envelopeCount (len d : Nat) : Nat := (len / 2 + 2 ^ d - 1) / 2 ^ d

theorem lt_envelopeCount_iff {len d k : Nat} : k < envelopeCount len d ↔ k * 2 ^ d < len / 2 := by
  have hs : 0 < 2 ^ d := Nat.two_pow_pos d
  rw [envelopeCount, ← Nat.succ_le, Nat.le_div_iff_mul_le hs, Nat.succ_mul]
  omega

/-! ## The read-ahead invariant -/

/-- After `j` iterations over the original bytes `orig`: slots below `j` hold their
values, and the bytes from `2*j` on are untouched. -/
def EnvelopeInv (orig : Nat → UInt8) (stride j : Nat) (buf : Nat → UInt8) : Prop :=
  (∀ k < j, (loadU16 buf k : Int) = envelopeSample orig (k * stride)) ∧
    ∀ p, 2 * j ≤ p → buf p = orig p

theorem envelopeInv_zero (orig : Nat → UInt8) (stride : Nat) : EnvelopeInv orig stride 0 orig :=
  ⟨fun _ h => absurd h (Nat.not_lt_zero _), fun _ _ => rfl⟩

/-- One iteration keeps the invariant: it reads bytes at or above `2*j`, which are still
original, and writes only the bytes of slot `j`. -/
theorem envelopeInv_step {orig buf : Nat → UInt8} {stride j : Nat} (hs : 0 < stride)
    (inv : EnvelopeInv orig stride j buf) :
    EnvelopeInv orig stride (j + 1) (storeU16 buf j (envelopeSample buf (j * stride))) := by
  have hj : j ≤ j * stride := Nat.le_mul_of_pos_right j hs
  have hread : envelopeSample buf (j * stride) = envelopeSample orig (j * stride) := by
    simp only [envelopeSample, inv.2 _ (by omega : 2 * j ≤ 2 * (j * stride)),
      inv.2 _ (by omega : 2 * j ≤ 2 * (j * stride) + 1)]
  obtain ⟨lo, hi⟩ := envelopeSample_mem orig (j * stride)
  refine ⟨fun k hk => ?_, fun p hp => ?_⟩
  · rcases Nat.lt_succ_iff_lt_or_eq.mp hk with hk | rfl
    · rw [loadU16_storeU16_of_ne _ _ (by omega), inv.1 k hk]
    · rw [hread, loadU16_storeU16_self _ _ lo (by omega)]
  · rw [storeU16_apply_of_ne _ (by omega) (by omega), inv.2 p (by omega)]

/-- **The loop lemma.** From any state satisfying the invariant after `j` iterations, with
fuel enough to reach `half`, every slot `k` whose read index `k * stride` is below `half`
ends up holding the value of the original bytes. -/
theorem envelopeDetectLoop_slot (orig : Nat → UInt8) {half stride : Nat} (hs : 0 < stride) :
    ∀ fuel j buf, EnvelopeInv orig stride j buf → half ≤ (j + fuel) * stride →
      ∀ k, k * stride < half →
        (loadU16 (envelopeDetectLoop half stride fuel (j * stride) j buf) k : Int) =
          envelopeSample orig (k * stride) := by
  intro fuel
  induction fuel with
  | zero =>
    intro j buf inv hfuel k hk
    exact inv.1 k (Nat.lt_of_mul_lt_mul_right (by simpa using lt_of_lt_of_le hk hfuel))
  | succ fuel ih =>
    intro j buf inv hfuel k hk
    simp only [envelopeDetectLoop]
    split
    · rw [show j * stride + stride = (j + 1) * stride by rw [Nat.succ_mul]]
      exact ih (j + 1) _ (envelopeInv_step hs inv) (by rw [Nat.add_right_comm]; exact hfuel) k hk
    · exact inv.1 k (Nat.lt_of_mul_lt_mul_right (show k * stride < j * stride by omega))

/-- The squared magnitude the spec assigns to an IQ byte pair: `s(i)² + s(q)²`, where
`s(x)` is the byte `x ^ 0x80` read as `signed char`. -/
def iqPower (i q : UInt8) : Int := signedChar (i ^^^ 0x80) ^ 2 + signedChar (q ^^^ 0x80) ^ 2

/-- The power of a byte pair around the bias 128: `(i - 128)² + (q - 128)²`. -/
theorem iqPower_eq (i q : UInt8) : iqPower i q = ((i.toNat : Int) - 128) ^ 2 + ((q.toNat : Int) - 128) ^ 2 := by
  rw [iqPower, signedChar_xor, signedChar_xor]

theorem iqPower_mem (i q : UInt8) : 0 ≤ iqPower i q ∧ iqPower i q ≤ 32768 := by
  unfold iqPower
  rw [sq, sq]
  exact ⟨add_nonneg (mul_self_nonneg _) (mul_self_nonneg _),
    by linarith [signedChar_mul_self_le (i ^^^ 0x80), signedChar_mul_self_le (q ^^^ 0x80)]⟩

/-- Slot `k` after the loop holds the power of the byte pair at `2k·2^d` before it. -/
theorem loadU16_envelopeDetect (buf : Nat → UInt8) (len d k : Nat) (hk : k < envelopeCount len d) :
    (loadU16 (envelopeDetect buf len d) k : Int) =
      iqPower (buf (2 * (k * 2 ^ d))) (buf (2 * (k * 2 ^ d) + 1)) := by
  have hs : 0 < 2 ^ d := Nat.two_pow_pos d
  have hslot := envelopeDetectLoop_slot buf hs (len / 2) 0 buf (envelopeInv_zero buf _)
    (by rw [Nat.zero_add]; exact Nat.le_mul_of_pos_right _ hs) k (lt_envelopeCount_iff.mp hk)
  have hval : envelopeSample buf (k * 2 ^ d) =
      iqPower (buf (2 * (k * 2 ^ d))) (buf (2 * (k * 2 ^ d) + 1)) := by
    simp only [envelopeSample, iqPower]; ring
  rw [← hval]
  simpa [envelopeDetect] using hslot

/-- **In-place envelope detection is exact.** For every buffer, length and decimation
exponent, the first `⌈(len/2) / 2^d⌉` `uint16_t` slots after `envelope_detect` hold the
squared magnitudes of the byte pairs at `2k·2^d` *before* the call — no iteration reads
a byte an earlier one overwrote — and each value lies in `[0, 32768]`. -/
theorem envelopeDetect_slots (buf : Nat → UInt8) (len d k : Nat) (hk : k < envelopeCount len d) :
    (loadU16 (envelopeDetect buf len d) k : Int) =
        iqPower (buf (2 * (k * 2 ^ d))) (buf (2 * (k * 2 ^ d) + 1)) ∧
      0 ≤ iqPower (buf (2 * (k * 2 ^ d))) (buf (2 * (k * 2 ^ d) + 1)) ∧
      iqPower (buf (2 * (k * 2 ^ d))) (buf (2 * (k * 2 ^ d) + 1)) ≤ 32768 :=
  ⟨loadU16_envelopeDetect buf len d k hk, iqPower_mem _ _⟩

/-- Eight bytes at decimation 1: slot 1 holds the power of bytes 4 and 5, read after the
loop's first iteration overwrote bytes 0 and 1 with slot 0. -/
theorem envelopeDetect_slots_decimated :
    (loadU16 (envelopeDetect (fun i => [0x00, 0xFF, 0x80, 0x80, 0x40, 0xC0, 0x80, 0x80].getD i 0) 8 1) 1
        : Int) = iqPower 0x40 0xC0 ∧ 0 ≤ iqPower 0x40 0xC0 ∧ iqPower 0x40 0xC0 ≤ 32768 :=
  envelopeDetect_slots (fun i => [0x00, 0xFF, 0x80, 0x80, 0x40, 0xC0, 0x80, 0x80].getD i 0) 8 1 1
    (by decide)

end Rtl433
