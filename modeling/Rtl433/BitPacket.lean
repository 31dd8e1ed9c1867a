import Rtl433.Basic

/-!
# Rtl433 — the bit packet of a protocol instance

`struct protocol_state` holds a 12 × 5 byte matrix `bits_buffer` and a three-part write
cursor (row, byte, bit). `demod_add_bit` ORs one bit in at the cursor and moves it one
bit to the right, MSB first; `demod_next_bits_packet` starts the next row;
`demod_reset_bits_packet` clears the matrix. Both cursor moves clamp at the last byte
and the last row, and say so on `stderr`.

* `ProtocolState.CursorInv` — the cursor is a valid position; every operation keeps it;
* `ProtocolState.CursorAt` — the cursor stands after `n` bits of a given row;
  `cursorAt_demodAddBit` advances it;
* `Packs` — the matrix holds a list of rows packed MSB-first; `demodAddBit_packs` and
  `packs_append_nil` are the packing steps the transmission theorem composes.
-/

namespace Rtl433

/-! ## State and events -/

/-- What `pwm_demod` writes to `stderr`, in order. -/
inductive DemodEvent where
  /-- `fprintf(stderr, "p->bits_col_idx>4!\n")`: the byte cursor was clamped. -/
  | colOverflow
  /-- `fprintf(stderr, "p->bits_row_idx>11!\n")`: the row cursor was clamped. -/
  | rowOverflow
  /-- `demod_print_bits_packet(p)`, with the 12 × 5 bytes of `bits_buffer` it prints and
  decodes. -/
  | printBitsPacket (rows : List (List Nat))
deriving DecidableEq, Repr

/-- The arguments of the `demod_print_bits_packet` calls among the events. -/
def printedPackets (es : List DemodEvent) : List (List (List Nat)) :=
  es.filterMap fun
    | .printBitsPacket rows => some rows
    | _ => none

@[simp] theorem printedPackets_nil : printedPackets [] = [] := rfl

@[simp] theorem printedPackets_append (es fs : List DemodEvent) :
    printedPackets (es ++ fs) = printedPackets es ++ printedPackets fs :=
  List.filterMap_append _ _ _

@[simp] theorem printedPackets_colOverflow : printedPackets [.colOverflow] = [] := rfl
@[simp] theorem printedPackets_rowOverflow : printedPackets [.rowOverflow] = [] := rfl
@[simp] theorem printedPackets_print (rows : List (List Nat)) :
    printedPackets [.printBitsPacket rows] = [rows] := rfl

/-- `struct protocol_state`; the `uint8_t` cells of `bits_buffer` are indexed by the
`int` cursors themselves. -/
structure ProtocolState where
  bitsColIdx : Int
  bitsRowIdx : Int
  bitsBitColIdx : Int
  bitsBuffer : Int → Int → Nat
  pulseLength : Int
  pulseCount : Int
  pulseDistance : Int
  sampleCounter : Int
  startC : Int
  shortLimit : Int
  longLimit : Int
  resetLimit : Int

/-- The 12 × 5 bytes `demod_print_bits_packet` reads: `bits_buffer[i][j]` for
`i < BITBUF_ROWS`, `j < BITBUF_COLS`. -/
def bitsSnapshot (buf : Int → Int → Nat) : List (List Nat) :=
  (List.range bitbufRows).map fun (i : Nat) => (List.range bitbufCols).map fun (j : Nat) => buf i j

/-! ## The three operations -/

/-- `bits_buffer[r][c] |= v`, truncated to the `uint8_t` cell. -/
def orCell (buf : Int → Int → Nat) (r c : Int) (v : Nat) : Int → Int → Nat :=
  fun r' c' => if r' = r ∧ c' = c then (buf r c ||| v) % 256 else buf r' c'

/-- `demod_reset_bits_packet`: `memset` of the whole matrix, cursor to row 0, byte 0,
bit 7. -/
def demodResetBitsPacket (p : ProtocolState) : ProtocolState :=
  { p with bitsBuffer := fun _ _ => 0, bitsColIdx := 0, bitsBitColIdx := 7, bitsRowIdx := 0 }

/-- `demod_add_bit(p, bit)`: `bits_buffer[row][col] |= bit << bit_col_idx`, then the bit
cursor moves right, wrapping into the next byte, which is clamped at 4. -/
def demodAddBit (p : ProtocolState) (bit : Int) : ProtocolState × List DemodEvent :=
  let p := { p with
    bitsBuffer := orCell p.bitsBuffer p.bitsRowIdx p.bitsColIdx (bit.toNat <<< p.bitsBitColIdx.toNat)
    bitsBitColIdx := p.bitsBitColIdx - 1 }
  if p.bitsBitColIdx < 0 then
    let p := { p with bitsBitColIdx := 7, bitsColIdx := p.bitsColIdx + 1 }
    if p.bitsColIdx > 4 then ({ p with bitsColIdx := 4 }, [.colOverflow]) else (p, [])
  else (p, [])

/-- `demod_next_bits_packet(p)`: byte 0, bit 7 of the next row, clamped at row 11. -/
def demodNextBitsPacket (p : ProtocolState) : ProtocolState × List DemodEvent :=
  let p := { p with bitsColIdx := 0, bitsRowIdx := p.bitsRowIdx + 1, bitsBitColIdx := 7 }
  if p.bitsRowIdx > 11 then ({ p with bitsRowIdx := 11 }, [.rowOverflow]) else (p, [])

/-- What `demod_add_bit` does, in one statement: the cell at the cursor gains the bit,
the bit cursor steps right or wraps to bit 7 of the next byte (at most byte 4). -/
theorem demodAddBit_fst (p : ProtocolState) (bit : Int) :
    (demodAddBit p bit).1 = { p with
      bitsBuffer := orCell p.bitsBuffer p.bitsRowIdx p.bitsColIdx
        (bit.toNat <<< p.bitsBitColIdx.toNat)
      bitsBitColIdx := if 0 < p.bitsBitColIdx then p.bitsBitColIdx - 1 else 7
      bitsColIdx := if 0 < p.bitsBitColIdx then p.bitsColIdx else min (p.bitsColIdx + 1) 4 } := by
  unfold demodAddBit
  by_cases h : 0 < p.bitsBitColIdx
  · simp [h, show ¬ p.bitsBitColIdx - 1 < 0 by omega]
  · by_cases h4 : p.bitsColIdx + 1 > 4
    · simp [h, show p.bitsBitColIdx - 1 < 0 by omega, h4, show min (p.bitsColIdx + 1) 4 = 4 by omega]
    · simp [h, show p.bitsBitColIdx - 1 < 0 by omega, h4, show min (p.bitsColIdx + 1) 4 = p.bitsColIdx + 1 by omega]

/-- What `demod_next_bits_packet` does: byte 0, bit 7, row one further but at most 11. -/
theorem demodNextBitsPacket_fst (p : ProtocolState) :
    (demodNextBitsPacket p).1 = { p with
      bitsColIdx := 0, bitsRowIdx := min (p.bitsRowIdx + 1) 11, bitsBitColIdx := 7 } := by
  unfold demodNextBitsPacket
  by_cases h : p.bitsRowIdx + 1 > 11
  · simp [h, show min (p.bitsRowIdx + 1) 11 = 11 by omega]
  · simp [h, show min (p.bitsRowIdx + 1) 11 = p.bitsRowIdx + 1 by omega]

/-- What `demod_add_bit` writes to `stderr`: the overflow line exactly when the byte
cursor wraps past byte 4. -/
theorem demodAddBit_snd (p : ProtocolState) (bit : Int) :
    (demodAddBit p bit).2 =
      if p.bitsBitColIdx ≤ 0 ∧ 4 ≤ p.bitsColIdx then [.colOverflow] else [] := by
  unfold demodAddBit
  by_cases h : p.bitsBitColIdx ≤ 0
  · by_cases h4 : 4 ≤ p.bitsColIdx
    · simp [h, h4, show p.bitsBitColIdx - 1 < 0 by omega, show p.bitsColIdx + 1 > 4 by omega]
    · simp [h, h4, show p.bitsBitColIdx - 1 < 0 by omega, show ¬ p.bitsColIdx + 1 > 4 by omega]
  · simp [h, show ¬ p.bitsBitColIdx - 1 < 0 by omega]

/-- What `demod_next_bits_packet` writes to `stderr`: the overflow line exactly when the
row cursor already stands on row 11 or beyond. -/
theorem demodNextBitsPacket_snd (p : ProtocolState) :
    (demodNextBitsPacket p).2 = if 11 ≤ p.bitsRowIdx then [.rowOverflow] else [] := by
  unfold demodNextBitsPacket
  by_cases h : 11 ≤ p.bitsRowIdx
  · simp [h, show p.bitsRowIdx + 1 > 11 by omega]
  · simp [h, show ¬ p.bitsRowIdx + 1 > 11 by omega]

@[simp] theorem printedPackets_demodAddBit (p : ProtocolState) (bit : Int) :
    printedPackets (demodAddBit p bit).2 = [] := by
  unfold demodAddBit; dsimp only; split_ifs <;> rfl

@[simp] theorem printedPackets_demodNextBitsPacket (p : ProtocolState) :
    printedPackets (demodNextBitsPacket p).2 = [] := by
  unfold demodNextBitsPacket; dsimp only; split_ifs <;> rfl

section Fields

variable (p : ProtocolState) (bit : Int)

@[simp] theorem demodAddBit_pulseCount : (demodAddBit p bit).1.pulseCount = p.pulseCount := by
  rw [demodAddBit_fst]
@[simp] theorem demodAddBit_pulseDistance :
    (demodAddBit p bit).1.pulseDistance = p.pulseDistance := by rw [demodAddBit_fst]
@[simp] theorem demodAddBit_startC : (demodAddBit p bit).1.startC = p.startC := by
  rw [demodAddBit_fst]
@[simp] theorem demodAddBit_sampleCounter :
    (demodAddBit p bit).1.sampleCounter = p.sampleCounter := by rw [demodAddBit_fst]
@[simp] theorem demodAddBit_pulseLength : (demodAddBit p bit).1.pulseLength = p.pulseLength := by
  rw [demodAddBit_fst]
@[simp] theorem demodAddBit_shortLimit : (demodAddBit p bit).1.shortLimit = p.shortLimit := by
  rw [demodAddBit_fst]
@[simp] theorem demodAddBit_longLimit : (demodAddBit p bit).1.longLimit = p.longLimit := by
  rw [demodAddBit_fst]
@[simp] theorem demodAddBit_resetLimit : (demodAddBit p bit).1.resetLimit = p.resetLimit := by
  rw [demodAddBit_fst]
@[simp] theorem demodAddBit_bitsRowIdx : (demodAddBit p bit).1.bitsRowIdx = p.bitsRowIdx := by
  rw [demodAddBit_fst]

@[simp] theorem demodNextBitsPacket_pulseCount :
    (demodNextBitsPacket p).1.pulseCount = p.pulseCount := by rw [demodNextBitsPacket_fst]
@[simp] theorem demodNextBitsPacket_pulseDistance :
    (demodNextBitsPacket p).1.pulseDistance = p.pulseDistance := by rw [demodNextBitsPacket_fst]
@[simp] theorem demodNextBitsPacket_startC : (demodNextBitsPacket p).1.startC = p.startC := by
  rw [demodNextBitsPacket_fst]
@[simp] theorem demodNextBitsPacket_sampleCounter :
    (demodNextBitsPacket p).1.sampleCounter = p.sampleCounter := by rw [demodNextBitsPacket_fst]
@[simp] theorem demodNextBitsPacket_pulseLength :
    (demodNextBitsPacket p).1.pulseLength = p.pulseLength := by rw [demodNextBitsPacket_fst]
@[simp] theorem demodNextBitsPacket_shortLimit :
    (demodNextBitsPacket p).1.shortLimit = p.shortLimit := by rw [demodNextBitsPacket_fst]
@[simp] theorem demodNextBitsPacket_longLimit :
    (demodNextBitsPacket p).1.longLimit = p.longLimit := by rw [demodNextBitsPacket_fst]
@[simp] theorem demodNextBitsPacket_resetLimit :
    (demodNextBitsPacket p).1.resetLimit = p.resetLimit := by rw [demodNextBitsPacket_fst]
@[simp] theorem demodNextBitsPacket_bitsBuffer :
    (demodNextBitsPacket p).1.bitsBuffer = p.bitsBuffer := by rw [demodNextBitsPacket_fst]

end Fields

/-! ## The cursor stays a valid position -/

/-- The write cursor is a valid position: row in `[0, 11]`, byte in `[0, 4]`, bit in
`[0, 7]`. -/
structure ProtocolState.CursorInv (p : ProtocolState) : Prop where
  row : 0 ≤ p.bitsRowIdx ∧ p.bitsRowIdx ≤ 11
  col : 0 ≤ p.bitsColIdx ∧ p.bitsColIdx ≤ 4
  bit : 0 ≤ p.bitsBitColIdx ∧ p.bitsBitColIdx ≤ 7

theorem cursorInv_demodResetBitsPacket (p : ProtocolState) :
    (demodResetBitsPacket p).CursorInv :=
  ⟨by simp [demodResetBitsPacket], by simp [demodResetBitsPacket], by simp [demodResetBitsPacket]⟩

theorem cursorInv_demodAddBit {p : ProtocolState} (h : p.CursorInv) (bit : Int) :
    (demodAddBit p bit).1.CursorInv := by
  obtain ⟨⟨r0, r1⟩, ⟨c0, c1⟩, ⟨b0, b1⟩⟩ := h
  rw [demodAddBit_fst]
  refine ⟨⟨r0, r1⟩, ?_, ?_⟩ <;> dsimp only <;> split <;> omega

theorem cursorInv_demodNextBitsPacket {p : ProtocolState} (h : p.CursorInv) :
    (demodNextBitsPacket p).1.CursorInv := by
  obtain ⟨⟨r0, r1⟩, -, -⟩ := h
  rw [demodNextBitsPacket_fst]
  exact ⟨by dsimp only; omega, by simp, by simp⟩

/-- The only cell `demod_add_bit` changes is the one under the cursor. -/
theorem demodAddBit_buffer_of_ne (p : ProtocolState) (bit : Int) {r c : Int}
    (h : ¬ (r = p.bitsRowIdx ∧ c = p.bitsColIdx)) :
    (demodAddBit p bit).1.bitsBuffer r c = p.bitsBuffer r c := by
  rw [demodAddBit_fst]; simp [orCell, h]

/-- Once the byte cursor sits on the terminal byte 4, `demod_add_bit` keeps it there and
in the same row. -/
theorem demodAddBit_col_of_terminal {p : ProtocolState} (h4 : p.bitsColIdx = 4)
    (bit : Int) : (demodAddBit p bit).1.bitsColIdx = 4 ∧
      (demodAddBit p bit).1.bitsRowIdx = p.bitsRowIdx := by
  rw [demodAddBit_fst]; dsimp only; split <;> omega

/-- Once the row cursor sits on the terminal row 11, `demod_next_bits_packet` keeps it
there. -/
theorem demodNextBitsPacket_row_of_terminal {p : ProtocolState} (h11 : p.bitsRowIdx = 11) :
    (demodNextBitsPacket p).1.bitsRowIdx = 11 := by
  rw [demodNextBitsPacket_fst]; dsimp only; omega

/-! ## Packing rows MSB-first -/

/-- Bit `t` of byte `c` of a row packed MSB-first from bit 7 of byte 0: row bit
`8*c + (7 - t)`, zero past the end of the row. -/
def rowBit (bits : List Bool) (c t : Nat) : Bool := bits.getD (8 * c + (7 - t)) false

/-- The matrix holds `rows` packed: every cell is a byte, and bit `t < 8` of cell
`(r, c)` is bit `t` of byte `c` of row `r` (zero outside the rows). -/
def Packs (buf : Int → Int → Nat) (rows : List (List Bool)) : Prop :=
  ∀ r c, buf r c < 256 ∧
    ∀ t < 8, (buf r c).testBit t = (decide (0 ≤ r ∧ 0 ≤ c) && rowBit (rows.getD r.toNat []) c.toNat t)

/-- The cursor stands after the first `n` bits of row `row`: byte `min (n / 8) 4`, bit
`7 - n % 8`. -/
def ProtocolState.CursorAt (p : ProtocolState) (row n : Nat) : Prop :=
  p.bitsRowIdx = row ∧ p.bitsColIdx = min (n / 8 : Nat) 4 ∧ p.bitsBitColIdx = 7 - (n % 8 : Nat)

theorem cursorAt_demodAddBit {p : ProtocolState} {row n : Nat} (h : p.CursorAt row n)
    (bit : Int) : (demodAddBit p bit).1.CursorAt row (n + 1) := by
  obtain ⟨hr, hc, hb⟩ := h
  rw [demodAddBit_fst]
  refine ⟨hr, ?_, ?_⟩ <;> dsimp only <;> split <;> omega

theorem rowBit_nil (c t : Nat) : rowBit [] c t = false := rfl

/-- Appending bit `b` to a row sets exactly the packed position `cur.length`. -/
theorem rowBit_append_singleton (cur : List Bool) (b : Bool) (c t : Nat) :
    rowBit (cur ++ [b]) c t = if 8 * c + (7 - t) = cur.length then b else rowBit cur c t := by
  unfold rowBit
  split
  · rename_i h; rw [List.getD_append_right _ _ _ _ (by omega), h]; simp
  · rcases Nat.lt_or_gt_of_ne (by assumption : 8 * c + (7 - t) ≠ cur.length) with h | h
    · rw [List.getD_append _ _ _ _ h]
    · rw [List.getD_eq_default _ _ (by simp; omega), List.getD_eq_default _ _ (by omega)]

theorem getD_append_singleton (rows : List (List Bool)) (x : List Bool) (i : Nat) :
    (rows ++ [x]).getD i [] = if i = rows.length then x else rows.getD i [] := by
  split
  · rename_i h; rw [List.getD_append_right _ _ _ _ (by omega), h]; simp
  · rcases Nat.lt_or_gt_of_ne (by assumption : i ≠ rows.length) with h | h
    · rw [List.getD_append _ _ _ _ h]
    · rw [List.getD_eq_default _ _ (by simp; omega), List.getD_eq_default _ _ (by omega)]

/-- Position `8c + (7 - t)` of a row lies in byte `c`. -/
theorem eq_div_eight_of_index {c t n : Nat} (ht : t < 8) (h : 8 * c + (7 - t) = n) : c = n / 8 := by
  omega

/-- Bit `t` of the cell after `|= bit << k`, for a one-bit `bit` and `k < 8`. -/
theorem testBit_orCell_value (x : Nat) (bit : Int) (hbit : bit = 0 ∨ bit = 1) (k t : Nat)
    (hk : k < 8) (ht : t < 8) :
    ((x ||| (bit.toNat <<< k)) % 256).testBit t = (x.testBit t || (decide (t = k) && decide (bit = 1))) := by
  rw [show (256 : Nat) = 2 ^ 8 from rfl, Nat.testBit_mod_two_pow, Nat.testBit_or,
    Nat.testBit_shiftLeft]
  rcases hbit with rfl | rfl
  · simp [ht]
  · by_cases htk : t = k
    · subst htk; simp [ht]
    · have : t - k ≠ 0 ∨ t < k := by omega
      rcases this with h | h <;> simp [ht, htk, Nat.testBit_one_eq_true_iff_self_eq_zero, h, Nat.not_le.mpr]

/-- A new, empty row changes nothing in the matrix. -/
theorem packs_append_nil {buf : Int → Int → Nat} {rows : List (List Bool)} (h : Packs buf rows) :
    Packs buf (rows ++ [[]]) := by
  intro r c
  refine ⟨(h r c).1, fun t ht => ?_⟩
  rw [(h r c).2 t ht, getD_append_singleton]
  split <;> simp [*, rowBit_nil]

/-- **One bit in.** With the matrix holding `done ++ [cur]` and the cursor after the
`cur.length < 40` bits of row `done.length`, `demod_add_bit` with bit `b` leaves the
matrix holding `done ++ [cur ++ [b]]`. -/
theorem demodAddBit_packs {p : ProtocolState} {done : List (List Bool)} {cur : List Bool}
    (hp : Packs p.bitsBuffer (done ++ [cur])) (hc : p.CursorAt done.length cur.length)
    (hn : cur.length < 40) (b : Bool) :
    Packs (demodAddBit p (if b then 1 else 0)).1.bitsBuffer (done ++ [cur ++ [b]]) := by
  obtain ⟨hr, hcol, hbit⟩ := hc
  have hcol' : p.bitsColIdx = (cur.length / 8 : Nat) := by rw [hcol]; congr 1; omega
  have hrow : p.bitsRowIdx.toNat = done.length := by rw [hr]; rfl
  have hcolN : p.bitsColIdx.toNat = cur.length / 8 := by rw [hcol']; rfl
  have hk : p.bitsBitColIdx.toNat = 7 - cur.length % 8 := by rw [hbit]; omega
  have hnn : 0 ≤ p.bitsRowIdx ∧ 0 ≤ p.bitsColIdx := by omega
  intro r c
  rw [demodAddBit_fst]
  simp only [orCell]
  by_cases hrc : r = p.bitsRowIdx ∧ c = p.bitsColIdx
  · rw [if_pos hrc]
    obtain ⟨rfl, rfl⟩ := hrc
    refine ⟨Nat.mod_lt _ (by norm_num), fun t ht => ?_⟩
    rw [testBit_orCell_value _ _ (by cases b <;> simp) _ _ (by omega) ht, (hp _ _).2 t ht, hrow,
      hcolN, hk, getD_append_singleton, if_pos rfl, getD_append_singleton, if_pos rfl,
      rowBit_append_singleton]
    simp only [hnn, and_self, decide_True, Bool.true_and]
    by_cases htk : t = 7 - cur.length % 8
    · have hidx : 8 * (cur.length / 8) + (7 - t) = cur.length := by omega
      have hnone : rowBit cur (cur.length / 8) t = false := by
        unfold rowBit; rw [hidx, List.getD_eq_default _ _ (le_refl _)]
      rw [if_pos hidx, hnone]; cases b <;> simp [htk]
    · rw [if_neg (show 8 * (cur.length / 8) + (7 - t) ≠ cur.length by omega)]; simp [htk]
  · rw [if_neg hrc]
    refine ⟨(hp r c).1, fun t ht => ?_⟩
    rw [(hp r c).2 t ht, getD_append_singleton, getD_append_singleton]
    by_cases hnn' : 0 ≤ r ∧ 0 ≤ c
    · split
      · rename_i hr'
        rw [rowBit_append_singleton, if_neg]
        intro hidx
        exact hrc ⟨by rw [hr, ← hr', Int.toNat_of_nonneg hnn'.1],
          by rw [hcol', ← eq_div_eight_of_index ht hidx, Int.toNat_of_nonneg hnn'.2]⟩
      · rfl
    · simp [hnn']

end Rtl433
