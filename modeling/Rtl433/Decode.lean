import Rtl433.Transmission

/-!
# Rtl433 — what `demod_print_bits_packet` prints

When a demodulator instance sees the silence after a transmission it calls
`demod_print_bits_packet`, which prints the 12 × 5 bytes of the packet as a 0/1 matrix,
row 1 in hex, and then reads two frame formats out of them: the Prologue fields of
row 1 and the Rubicson temperature of row 0, each temperature as tenths of a degree.

* `demodPrintBitsPacket` — the values the function prints, computed with the C
  conversions (`uint16_t` and `int16_t` casts, the arithmetic `>> 4`, truncating `/`
  and `%`);
* `fieldValue`, `signed12` — the number an MSB-first run of a row's bits spells, and its
  12-bit two's-complement reading;
* **`demodPrintBitsPacket_packRows`** — of a packet holding `rows`, which is what
  `pwm_demod` prints for a transmission of `rows`, the function prints each row's
  first 40 bits and fixed bit fields of rows 0 and 1 (`referencePrint`).

The crux is `fieldValue_div_mod`: a shift and a mask of a packed byte is a shorter field
of the same row, so each of the source's byte expressions is one field.
-/

namespace Rtl433

/-! ## The printed values -/

/-- `bits_buffer[i][j]`, read from the 12 × 5 bytes a `printBitsPacket` event carries. -/
def cell (rows : List (List Nat)) (i j : Nat) : Nat := (rows.getD i []).getD j 0

/-- The first loop: every row as its bytes' bits from 7 down to 0, `"1 "` where
`bits_buffer[i][j] & 1<<k` is set. -/
def printedBitRows (rows : List (List Nat)) : List (List Bool) :=
  rows.map fun row => row.flatMap fun byte =>
    (List.range 8).map fun m => byte &&& 1 <<< (7 - m) != 0

/-- The arguments of a `"temp = %s%d.%d\n"` line. -/
structure TempText where
  minus : Bool
  whole : Int
  tenths : Int
deriving DecidableEq, Repr

/-- `t<0?"-":""`, `abs(t/10)`, `abs(t%10)`, with C's truncating `/` and `%`. -/
def tempText (t : Int) : TempText := ⟨decide (t < 0), |t.tdiv 10|, |t.tmod 10|⟩

/-- `temp = (int16_t)((uint16_t)(bits_buffer[0][1] << 12) | (bits_buffer[0][2] << 4));
temp = temp >> 4;` -/
def rubicsonTemp (b1 b2 : Nat) : Int :=
  toInt16 (toInt16 ((b1 <<< 12) % 2 ^ 16 ||| b2 <<< 4 : Nat) >>> (4 : Nat))

/-- `temp2 = (int16_t)((uint16_t)(bits_buffer[1][2] << 8) | (bits_buffer[1][3]&0xF0));
temp2 = temp2 >> 4;` -/
def prologueTemp (b2 b3 : Nat) : Int :=
  toInt16 (toInt16 ((b2 <<< 8) % 2 ^ 16 ||| b3 &&& 0xF0 : Nat) >>> (4 : Nat))

/-- The values `demod_print_bits_packet` prints, in order. -/
structure PrintedPacket where
  /-- The 0/1 matrix. -/
  bitRows : List (List Bool)
  /-- `"%02x %02x %02x %02x %02x\n"` of row 1. -/
  hexRow : List Nat
  button : Nat
  firstReading : Nat
  /-- `"temp          = %s%d.%d\n"` of `temp2`. -/
  temp2 : TempText
  channel : Nat
  id : Nat
  /-- Printed twice, as `"rid           = %d\n"` and `"hrid          = %02x\n"`. -/
  rid : Nat
  /-- `"rid = %x\n"` of `bits_buffer[0][0]`. -/
  rubicsonRid : Nat
  /-- `"temp = %s%d.%d\n"` of `temp`. -/
  temp : TempText
deriving DecidableEq, Repr

/-- `demod_print_bits_packet(p)` on the bytes of `bits_buffer`. -/
def demodPrintBitsPacket (rows : List (List Nat)) : PrintedPacket where
  bitRows := printedBitRows rows
  hexRow := (List.range bitbufCols).map (cell rows 1)
  button := if cell rows 1 1 &&& 0x04 ≠ 0 then 1 else 0
  firstReading := if cell rows 1 1 &&& 0x08 ≠ 0 then 0 else 1
  temp2 := tempText (prologueTemp (cell rows 1 2) (cell rows 1 3))
  channel := (cell rows 1 1 &&& 0x03) + 1
  id := (cell rows 1 0 &&& 0xF0) >>> 4
  rid := (cell rows 1 0 &&& 0x0F) <<< 4 ||| (cell rows 1 1 &&& 0xF0) >>> 4
  rubicsonRid := cell rows 0 0
  temp := tempText (rubicsonTemp (cell rows 0 1) (cell rows 0 2))

/-! ## The two temperature conversions

Both build a 16-bit value whose low nibble is zero, reinterpret it as `int16_t` and
shift it back by four: together a 12-bit two's-complement read. -/

/-- A 12-bit field read as two's complement. -/
def signed12 (v : Nat) : Int := if v < 2048 then v else v - 4096

theorem toInt16_shiftRight_four {w : Nat} (hw : w < 4096) :
    toInt16 (toInt16 (2 ^ 4 * w : Nat) >>> (4 : Nat)) = signed12 w := by
  unfold toInt16 signed12
  rw [Int.shiftRight_eq_div_pow]
  split_ifs <;> push_cast <;> omega

theorem mul_two_pow_or {a b k : Nat} (h : b < 2 ^ k) : a * 2 ^ k ||| b = a * 2 ^ k + b := by
  rw [Nat.mul_comm, Nat.mul_add_lt_is_or h]

set_option maxRecDepth 8000 in
/-- The masks `demod_print_bits_packet` applies to a byte, as quotients and remainders. -/
theorem byte_masks : ∀ b < 256,
    (b &&& 0x04 ≠ 0 ↔ b / 4 % 2 = 1) ∧ (b &&& 0x08 ≠ 0 ↔ b / 8 % 2 = 1) ∧
      b &&& 0x03 = b % 4 ∧ b &&& 0x0F = b % 16 ∧ b &&& 0xF0 = b / 16 % 16 * 16 := by
  decide

/-- The Rubicson conversion reads the low nibble of its first byte and all of its second. -/
theorem rubicsonTemp_eq (b1 : Nat) {b2 : Nat} (h2 : b2 < 256) :
    rubicsonTemp b1 b2 = signed12 (b1 % 16 * 256 + b2) := by
  have hor : (b1 <<< 12) % 2 ^ 16 ||| b2 <<< 4 = 2 ^ 4 * (b1 % 16 * 256 + b2) := by
    rw [Nat.shiftLeft_eq, Nat.shiftLeft_eq, show b1 * 2 ^ 12 % 2 ^ 16 = b1 % 16 * 2 ^ 12 by omega,
      mul_two_pow_or (by omega)]
    ring
  rw [rubicsonTemp, hor, toInt16_shiftRight_four (by omega)]

/-- The Prologue conversion reads its first byte and the high nibble of its second. -/
theorem prologueTemp_eq {b2 b3 : Nat} (h2 : b2 < 256) (h3 : b3 < 256) :
    prologueTemp b2 b3 = signed12 (b2 * 16 + b3 / 16) := by
  have hor : (b2 <<< 8) % 2 ^ 16 ||| b3 &&& 0xF0 = 2 ^ 4 * (b2 * 16 + b3 / 16) := by
    rw [Nat.shiftLeft_eq, (byte_masks b3 h3).2.2.2.2, Nat.mod_eq_of_lt (by omega),
      mul_two_pow_or (by omega)]
    omega
  rw [prologueTemp, hor, toInt16_shiftRight_four (by omega)]

/-- The low nibble of the second byte is dropped: `00 EA` is 14 tenths. -/
example : prologueTemp 0x00 0xEA = 14 := by decide

/-! ## Bit fields of a row

A packed byte is the run of width 8 at `8j` (`packByte_eq_fieldValue`); a run splits
into two (`fieldValue_add`), so every shift and mask of a packed byte is a narrower
run (`fieldValue_div_mod`). -/

theorem fieldValue_lt (bits : List Bool) (o w : Nat) : fieldValue bits o w < 2 ^ w := by
  induction w with
  | zero => simp
  | succ w ih =>
    rw [fieldValue_succ, pow_succ]
    have := Bool.toNat_le (bits.getD (o + w) false)
    omega

/-- A field is its first `w₁` bits followed by the next `w₂`. -/
theorem fieldValue_add (bits : List Bool) (o w₁ w₂ : Nat) :
    fieldValue bits o (w₁ + w₂) = fieldValue bits o w₁ * 2 ^ w₂ + fieldValue bits (o + w₁) w₂ := by
  induction w₂ with
  | zero => simp
  | succ w₂ ih =>
    rw [← Nat.add_assoc, fieldValue_succ, ih, fieldValue_succ, pow_succ, Nat.add_assoc o]
    ring

/-- Dropping the low `k` bits of a field and keeping the next `l` leaves the field of
width `l` that ends `k` bits before it. -/
theorem fieldValue_div_mod (bits : List Bool) (o w k l : Nat) (h : k + l ≤ w) :
    fieldValue bits o w / 2 ^ k % 2 ^ l = fieldValue bits (o + (w - k - l)) l := by
  obtain ⟨m, rfl⟩ : ∃ m, w = m + l + k := ⟨w - k - l, by omega⟩
  have hl := fieldValue_lt bits (o + m) l
  have hk := fieldValue_lt bits (o + (m + l)) k
  rw [show m + l + k - k - l = m by omega, fieldValue_add, fieldValue_add,
    Nat.add_comm _ (fieldValue bits (o + (m + l)) k), Nat.add_mul_div_right _ _ (by positivity),
    Nat.div_eq_of_lt hk, Nat.zero_add, Nat.add_comm, Nat.add_mul_mod_self_right, Nat.mod_eq_of_lt hl]

/-- A byte's bit set by `& 1<<k` is its `testBit k`. -/
theorem and_one_shiftLeft_ne_zero (byte k : Nat) : (byte &&& 1 <<< k != 0) = byte.testBit k := by
  rw [Nat.one_shiftLeft, Nat.and_two_pow]
  cases byte.testBit k <;> simp

/-- The bytes of a row, each printed from bit 7 down, are the row's first bits. -/
theorem flatMap_range_bytes {α : Type} (f : Nat → α) (n : Nat) :
    (List.range n).flatMap (fun j => (List.range 8).map fun m => f (8 * j + m)) =
      (List.range (8 * n)).map f := by
  induction n with
  | zero => rfl
  | succ n ih =>
    rw [List.range_succ, List.flatMap_append, ih, show 8 * (n + 1) = 8 * n + 8 by ring,
      List.range_add, List.map_append, List.map_map]
    simp

/-- The first 40 bits of a row, zero-padded: what a 5-byte row of the matrix holds of it. -/
def padRow (bits : List Bool) : List Bool := (bits ++ List.replicate 40 false).take 40

theorem map_range_getD_eq_padRow (bits : List Bool) :
    (List.range 40).map (fun n => bits.getD n false) = padRow bits := by
  unfold padRow
  refine List.ext_getElem (by simp) fun n h1 _ => ?_
  simp only [List.length_map, List.length_range] at h1
  rw [List.getElem_map, List.getElem_range, List.getElem_take]
  by_cases hn : n < bits.length
  · rw [List.getElem_append_left hn, List.getD_eq_getElem _ _ hn]
  · rw [List.getElem_append_right (by omega), List.getElem_replicate, List.getD_eq_default _ _ (by omega)]

/-! ## The printed packet of a packed matrix -/

/-- What a packet holding `rows` prints, field by field as runs of bits: each row's first
40 bits; of row 1 (Prologue) the id at bits 0–3, the random id at 4–11, the
first-reading flag as bit 12 inverted, the button as bit 13, the channel as bits 14–15
plus one, the temperature at bits 16–27; of row 0 (Rubicson) the id byte at bits 0–7
and the temperature at bits 12–23. -/
def referencePrint (rows : List (List Bool)) : PrintedPacket where
  bitRows := (List.range bitbufRows).map fun i => padRow (rows.getD i [])
  hexRow := (List.range bitbufCols).map fun j => fieldValue (rows.getD 1 []) (8 * j) 8
  button := fieldValue (rows.getD 1 []) 13 1
  firstReading := 1 - fieldValue (rows.getD 1 []) 12 1
  temp2 := tempText (signed12 (fieldValue (rows.getD 1 []) 16 12))
  channel := fieldValue (rows.getD 1 []) 14 2 + 1
  id := fieldValue (rows.getD 1 []) 0 4
  rid := fieldValue (rows.getD 1 []) 4 8
  rubicsonRid := fieldValue (rows.getD 0 []) 0 8
  temp := tempText (signed12 (fieldValue (rows.getD 0 []) 12 12))

theorem getD_map_range {α : Type} (f : Nat → α) (d : α) {i n : Nat} (h : i < n) :
    ((List.range n).map f).getD i d = f i := by
  rw [List.getD_eq_getElem _ _ (by simpa using h), List.getElem_map, List.getElem_range]

theorem cell_packRows (rows : List (List Bool)) {i j : Nat} (hi : i < bitbufRows) (hj : j < bitbufCols) :
    cell (packRows rows) i j = fieldValue (rows.getD i []) (8 * j) 8 := by
  rw [cell, packRows, getD_map_range _ _ hi, getD_map_range _ _ hj, packByte_eq_fieldValue]

theorem printedBitRows_packRows (rows : List (List Bool)) :
    printedBitRows (packRows rows) = (List.range bitbufRows).map fun i => padRow (rows.getD i []) := by
  rw [printedBitRows, packRows, List.map_map]
  refine List.map_congr_left fun i _ => ?_
  simp only [Function.comp, List.flatMap_map, ← map_range_getD_eq_padRow,
    show 40 = 8 * bitbufCols from rfl, ← flatMap_range_bytes]
  refine List.flatMap_congr fun j _ => List.map_congr_left fun m hm => ?_
  rw [and_one_shiftLeft_ne_zero, packByte_eq_fieldValue, testBit_fieldValue]
  have hm : m < 8 := List.mem_range.mp hm
  simp [hm, show 7 - m < 8 by omega, show 8 - 1 - (7 - m) = m by omega]

/-- The Prologue expressions of `demod_print_bits_packet` on the bytes of a packed row. -/
theorem prologue_fields (bits : List Bool) :
    (if fieldValue bits 8 8 &&& 0x04 ≠ 0 then 1 else 0) = fieldValue bits 13 1 ∧
      (if fieldValue bits 8 8 &&& 0x08 ≠ 0 then 0 else 1) = 1 - fieldValue bits 12 1 ∧
      prologueTemp (fieldValue bits 16 8) (fieldValue bits 24 8) = signed12 (fieldValue bits 16 12) ∧
      (fieldValue bits 8 8 &&& 0x03) + 1 = fieldValue bits 14 2 + 1 ∧
      (fieldValue bits 0 8 &&& 0xF0) >>> 4 = fieldValue bits 0 4 ∧
      (fieldValue bits 0 8 &&& 0x0F) <<< 4 ||| (fieldValue bits 8 8 &&& 0xF0) >>> 4 =
        fieldValue bits 4 8 := by
  obtain ⟨-, -, -, hlo, hhi⟩ := byte_masks _ (fieldValue_lt bits 0 8)
  obtain ⟨hb4, hb8, hb3, -, hbhi⟩ := byte_masks _ (fieldValue_lt bits 8 8)
  refine ⟨?_, ?_, ?_, ?_, ?_, ?_⟩
  · -- the button, bit 2 of byte 1
    have h : fieldValue bits 8 8 / 4 % 2 = fieldValue bits 13 1 :=
      fieldValue_div_mod bits 8 8 2 1 (by norm_num)
    have := fieldValue_lt bits 13 1
    simp only [hb4, h]; split_ifs <;> omega
  · -- the first-reading flag, bit 3 of byte 1
    have h : fieldValue bits 8 8 / 8 % 2 = fieldValue bits 12 1 :=
      fieldValue_div_mod bits 8 8 3 1 (by norm_num)
    have := fieldValue_lt bits 12 1
    simp only [hb8, h]; split_ifs <;> omega
  · -- the temperature, byte 2 and the high nibble of byte 3
    have h : fieldValue bits 24 8 / 16 % 16 = fieldValue bits 24 4 :=
      fieldValue_div_mod bits 24 8 4 4 (by norm_num)
    have h12 : fieldValue bits 16 12 = fieldValue bits 16 8 * 2 ^ 4 + fieldValue bits 24 4 :=
      fieldValue_add bits 16 8 4
    have := fieldValue_lt bits 24 8
    rw [prologueTemp_eq (fieldValue_lt bits 16 8) (fieldValue_lt bits 24 8), h12, ← h]
    congr 1; omega
  · -- the channel, the low two bits of byte 1
    rw [hb3, show fieldValue bits 8 8 % 4 = fieldValue bits 14 2 by
      simpa using fieldValue_div_mod bits 8 8 0 2 (by norm_num)]
  · -- the id, the high nibble of byte 0
    have := fieldValue_lt bits 0 8
    rw [hhi, Nat.shiftRight_eq_div_pow, ← fieldValue_div_mod bits 0 8 4 4 (by norm_num)]; omega
  · -- the random id, the low nibble of byte 0 and the high nibble of byte 1
    have h8 : fieldValue bits 4 8 = fieldValue bits 4 4 * 2 ^ 4 + fieldValue bits 8 4 :=
      fieldValue_add bits 4 4 4
    have hl : fieldValue bits 0 8 / 1 % 16 = fieldValue bits 4 4 :=
      fieldValue_div_mod bits 0 8 0 4 (by norm_num)
    have hh : fieldValue bits 8 8 / 16 % 16 = fieldValue bits 8 4 :=
      fieldValue_div_mod bits 8 8 4 4 (by norm_num)
    have := fieldValue_lt bits 8 8
    rw [hlo, hbhi, Nat.shiftLeft_eq, Nat.shiftRight_eq_div_pow, mul_two_pow_or (by omega), h8]; omega

/-- The Rubicson temperature on the bytes of a packed row is its bits 12 to 23. -/
theorem rubicson_fields (bits : List Bool) :
    rubicsonTemp (fieldValue bits 8 8) (fieldValue bits 16 8) = signed12 (fieldValue bits 12 12) := by
  have hlo : fieldValue bits 8 8 / 1 % 16 = fieldValue bits 12 4 :=
    fieldValue_div_mod bits 8 8 0 4 (by norm_num)
  have h12 : fieldValue bits 12 12 = fieldValue bits 12 4 * 2 ^ 8 + fieldValue bits 16 8 :=
    fieldValue_add bits 12 4 8
  rw [rubicsonTemp_eq _ (fieldValue_lt bits 16 8)]
  congr 1
  omega

/-- **What a packed packet prints.** Of the matrix holding `rows` packed MSB-first,
`demod_print_bits_packet` prints every row's first 40 bits and the fields of
`referencePrint`: each of its byte expressions reads one run of bits of row 0 or 1. -/
theorem demodPrintBitsPacket_packRows (rows : List (List Bool)) :
    demodPrintBitsPacket (packRows rows) = referencePrint rows := by
  obtain ⟨hbutton, hfirst, htemp2, hchannel, hid, hrid⟩ := prologue_fields (rows.getD 1 [])
  have hhex : (List.range bitbufCols).map (cell (packRows rows) 1) =
      (List.range bitbufCols).map fun j => fieldValue (rows.getD 1 []) (8 * j) 8 :=
    List.map_congr_left fun j hj => cell_packRows rows (by decide) (List.mem_range.mp hj)
  simp (disch := decide) only [demodPrintBitsPacket, referencePrint, printedBitRows_packRows, hhex,
    cell_packRows, Nat.reduceMul, hbutton, hfirst, htemp2, hchannel, hid, hrid, rubicson_fields]

end Rtl433
