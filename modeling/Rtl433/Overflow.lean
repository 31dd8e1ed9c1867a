import Rtl433.Sensor

/-!
# Rtl433 — transmissions past the 12 × 5 bit packet

`demod_add_bit` and `demod_next_bits_packet` clamp their cursors instead of stopping: the
bits of a row past its 40th keep being ORed into the row's byte 4, and every row from
the 13th on is ORed into row 11. Each clamp writes its line to `stderr`. This module says
what `pwm_demod` makes of a transmission of any size.

* **`ClampHolds`, `ClampPacks`** — the matrix holds the rows clamped: bit `t` of cell
  `(r, c)` is set iff bit `t` of some byte `j` of some row `i` is, with `min i 11 = r` and
  `min j 4 = c`; `clampHolds_snoc` is what one more bit adds, and
  `clampPacks_demodAddBit` the packing step;
* **`clampRows`** — the 12 × 5 bytes such a matrix prints as, each the OR of the bytes
  that land on it (`bitsSnapshot_of_clampPacks`);
* **`overflowMessages`** — the `stderr` lines of a transmission: one row line before
  each row from the 13th on, and one byte line for each byte a row completes from its
  5th on, so already for a row of exactly 40 bits, where no bit is lost;
* **`AfterPulseClamped`** — the state inside a pulse with the clamped cursor and
  layout; `afterPulseClamped_bitWave` and `afterPulseClamped_separatorWave` are its step
  lemmas, `afterPulseClamped_packetWave` the run lemma, and `pwmDemodCalls_overflow`
  gives the whole output of a transmission, lines and packet, below `reset_limit =
  INT_MAX` where the counter stays an `int`.
-/

namespace Rtl433

/-! ## The clamped layout -/

/-- Bit `t` of cell `(r, c)` is set by the rows: some row `i` has bit `t` of its byte `j`
set, where the cursors clamp row `i` onto `r` and byte `j` onto `c`. -/
def ClampHolds (rows : List (List Bool)) (r c : Int) (t : Nat) : Prop :=
  ∃ i j : Nat, ((min i 11 : Nat) : Int) = r ∧ ((min j 4 : Nat) : Int) = c ∧
    rowBit (rows.getD i []) j t = true

/-- The matrix holds `rows` clamped: every cell is a byte whose bits are those the rows
set in it. -/
def ClampPacks (buf : Int → Int → Nat) (rows : List (List Bool)) : Prop :=
  ∀ r c, buf r c < 256 ∧ ∀ t < 8, ((buf r c).testBit t = true ↔ ClampHolds rows r c t)

/-- The OR of a list of bytes. -/
def orBytes (bs : List Nat) : Nat := bs.foldl (fun a b => a ||| b) 0

/-- The bytes that land on cell `(i, j)`: byte `j'` of row `i'`, for every row with
`min i' 11 = i` and every byte of it up to its last with `min j' 4 = j`. -/
def clampedBytes (rows : List (List Bool)) (i j : Nat) : List Nat :=
  ((List.range rows.length).filter fun i' => min i' 11 = i).flatMap fun i' =>
    ((List.range ((rows.getD i' []).length / 8 + 1)).filter fun j' => min j' 4 = j).map
      (packByte (rows.getD i' []))

/-- The 12 × 5 bytes of `rows` clamped, each the OR of the bytes that land on it. -/
def clampRows (rows : List (List Bool)) : List (List Nat) :=
  (List.range bitbufRows).map fun i => (List.range bitbufCols).map fun j =>
    orBytes (clampedBytes rows i j)

theorem testBit_foldl_or (bs : List Nat) (a t : Nat) :
    (bs.foldl (fun a b => a ||| b) a).testBit t = true ↔
      a.testBit t = true ∨ ∃ b ∈ bs, b.testBit t = true := by
  induction bs generalizing a with
  | nil => simp
  | cons b bs ih => simp [ih, Nat.testBit_or, or_assoc]

theorem testBit_orBytes (bs : List Nat) (t : Nat) :
    (orBytes bs).testBit t = true ↔ ∃ b ∈ bs, b.testBit t = true := by
  simp [orBytes, testBit_foldl_or]

/-- A byte has no bit from bit 8 on. -/
theorem testBit_byte {x t : Nat} (hx : x < 256) (ht : 8 ≤ t) : x.testBit t = false :=
  Nat.testBit_lt_two_pow (lt_of_lt_of_le hx (Nat.pow_le_pow_right (by norm_num) ht : 2 ^ 8 ≤ 2 ^ t))

theorem orBytes_lt {bs : List Nat} (h : ∀ b ∈ bs, b < 256) : orBytes bs < 256 := by
  refine Nat.lt_pow_two_of_testBit (n := 8) _ fun t ht => Bool.eq_false_iff.mpr fun hb => ?_
  obtain ⟨b, hb, hbt⟩ := (testBit_orBytes bs t).mp hb
  rw [testBit_byte (h b hb) ht] at hbt
  exact Bool.false_ne_true hbt

theorem testBit_packByte (bits : List Bool) (j : Nat) {t : Nat} (ht : t < 8) :
    (packByte bits j).testBit t = rowBit bits j t := by
  rw [packByte_eq_fieldValue, testBit_fieldValue, rowBit, show 8 - 1 - t = 7 - t by omega]
  simp [ht]

theorem packByte_lt (bits : List Bool) (j : Nat) : packByte bits j < 256 :=
  Nat.lt_pow_two_of_testBit (n := 8) _ fun t ht => by
    rw [packByte_eq_fieldValue, testBit_fieldValue]; simp; omega

/-- A bit that a row sets lies in one of its bytes, and a row that sets a bit is one of
the rows. -/
theorem lt_of_rowBit {rows : List (List Bool)} {i j t : Nat}
    (h : rowBit (rows.getD i []) j t = true) :
    i < rows.length ∧ j < (rows.getD i []).length / 8 + 1 := by
  constructor
  · by_contra hi
    rw [List.getD_eq_default _ _ (by omega), rowBit_nil] at h
    exact Bool.false_ne_true h
  · by_contra hj
    rw [rowBit, List.getD_eq_default _ _ (by omega)] at h
    exact Bool.false_ne_true h

/-- Cell `(i, j)` of `clampRows` has exactly the bits the rows set in it. -/
theorem testBit_orBytes_clampedBytes (rows : List (List Bool)) (i j : Nat) {t : Nat}
    (ht : t < 8) :
    (orBytes (clampedBytes rows i j)).testBit t = true ↔ ClampHolds rows i j t := by
  simp only [testBit_orBytes, clampedBytes, List.mem_flatMap, List.mem_filter, List.mem_range,
    List.mem_map, decide_eq_true_eq, ClampHolds, Nat.cast_inj]
  constructor
  · rintro ⟨_, ⟨i', ⟨-, hi⟩, j', ⟨-, hj⟩, rfl⟩, hb⟩
    exact ⟨i', j', hi, hj, by rwa [testBit_packByte _ _ ht] at hb⟩
  · rintro ⟨i', j', hi, hj, hb⟩
    obtain ⟨hi', hj'⟩ := lt_of_rowBit hb
    exact ⟨_, ⟨i', ⟨hi', hi⟩, j', ⟨hj', hj⟩, rfl⟩, by rwa [testBit_packByte _ _ ht]⟩

/-- A matrix holding `rows` clamped prints as `clampRows rows`. -/
theorem bitsSnapshot_of_clampPacks {buf : Int → Int → Nat} {rows : List (List Bool)}
    (h : ClampPacks buf rows) : bitsSnapshot buf = clampRows rows :=
  List.map_congr_left fun i _ => List.map_congr_left fun j _ => Nat.eq_of_testBit_eq fun t => by
    by_cases ht : t < 8
    · rw [Bool.eq_iff_iff, (h i j).2 t ht, testBit_orBytes_clampedBytes rows i j ht]
    · have hlt : ∀ b ∈ clampedBytes rows i j, b < 256 := by
        simp only [clampedBytes, List.mem_flatMap, List.mem_map]
        rintro _ ⟨_, -, _, -, rfl⟩
        exact packByte_lt _ _
      rw [testBit_byte (h i j).1 (by omega), testBit_byte (orBytes_lt hlt) (by omega)]

/-! ## What each operation adds -/

theorem clampPacks_cleared : ClampPacks (fun _ _ => 0) [[]] := by
  refine fun r c => ⟨by norm_num, fun t _ => ?_⟩
  simp only [Nat.zero_testBit, Bool.false_eq_true, false_iff]
  rintro ⟨i, j, -, -, h⟩
  have hrow : [([] : List Bool)].getD i [] = [] := by cases i <;> rfl
  rw [hrow, rowBit_nil] at h
  exact Bool.false_ne_true h

/-- A new, empty row sets no bit. -/
theorem clampPacks_append_nil {buf : Int → Int → Nat} {rows : List (List Bool)}
    (h : ClampPacks buf rows) : ClampPacks buf (rows ++ [[]]) := by
  refine fun r c => ⟨(h r c).1, fun t ht => (h r c).2 t ht |>.trans ?_⟩
  refine exists_congr fun i => exists_congr fun j => and_congr_right' <| and_congr_right' ?_
  rw [getD_append_singleton]
  split
  · subst i; simp [rowBit_nil, List.getD_eq_default]
  · rfl

/-- **One bit more.** Appending bit `b` to the row under way, of length `n`, sets at most
one bit of the layout: bit `7 - n % 8` of the cell the cursors clamp row `done.length`
and byte `n / 8` onto, and that one iff `b` is a 1. -/
theorem clampHolds_snoc {done : List (List Bool)} {cur : List Bool} {b : Bool} {r c : Int}
    {t : Nat} (ht : t < 8) :
    ClampHolds (done ++ [cur ++ [b]]) r c t ↔ ClampHolds (done ++ [cur]) r c t ∨
      (b = true ∧ r = (min done.length 11 : Nat) ∧ c = (min (cur.length / 8) 4 : Nat) ∧
        t = 7 - cur.length % 8) := by
  unfold ClampHolds
  constructor
  · rintro ⟨i, j, hi, hj, h⟩
    rw [getD_append_singleton] at h
    by_cases hid : i = done.length
    · subst hid
      rw [if_pos rfl, rowBit_append_singleton] at h
      by_cases hidx : 8 * j + (7 - t) = cur.length
      · rw [if_pos hidx] at h
        exact .inr ⟨h, hi.symm, by rw [← hj]; congr 2; omega, by omega⟩
      · rw [if_neg hidx] at h
        exact .inl ⟨done.length, j, hi, hj, by rwa [getD_append_singleton, if_pos rfl]⟩
    · rw [if_neg hid] at h
      exact .inl ⟨i, j, hi, hj, by rwa [getD_append_singleton, if_neg hid]⟩
  · rintro (⟨i, j, hi, hj, h⟩ | ⟨rfl, rfl, rfl, rfl⟩)
    · refine ⟨i, j, hi, hj, ?_⟩
      by_cases hid : i = done.length
      · -- the row under way: the bit set lies before its end, so the new bit is another
        rw [hid, getD_append_singleton, if_pos rfl] at h ⊢
        rw [rowBit_append_singleton, if_neg fun hidx => ?_, h]
        rw [rowBit, hidx, List.getD_eq_default _ _ le_rfl] at h
        exact Bool.false_ne_true h
      · rwa [getD_append_singleton, if_neg hid] at h ⊢
    · refine ⟨done.length, cur.length / 8, rfl, rfl, ?_⟩
      rw [getD_append_singleton, if_pos rfl, rowBit_append_singleton, if_pos (by omega)]

/-- **The packing step.** With the matrix holding `done ++ [cur]` clamped and the cursor
after `cur` in row `min done.length 11`, `demod_add_bit` with bit `b` leaves it holding
`done ++ [cur ++ [b]]`, however long the row. -/
theorem clampPacks_demodAddBit {p : ProtocolState} {done : List (List Bool)} {cur : List Bool}
    (hp : ClampPacks p.bitsBuffer (done ++ [cur]))
    (hc : p.CursorAt (min done.length 11) cur.length) (b : Bool) :
    ClampPacks (demodAddBit p (if b then 1 else 0)).1.bitsBuffer (done ++ [cur ++ [b]]) := by
  obtain ⟨hr, hcol, hbit⟩ := hc
  have hk : p.bitsBitColIdx.toNat = 7 - cur.length % 8 := by rw [hbit]; omega
  intro r c
  rw [demodAddBit_fst]
  simp only [orCell]
  by_cases hrc : r = p.bitsRowIdx ∧ c = p.bitsColIdx
  · rw [if_pos hrc]
    obtain ⟨rfl, rfl⟩ := hrc
    refine ⟨Nat.mod_lt _ (by norm_num), fun t ht => ?_⟩
    rw [testBit_orCell_value _ _ (by cases b <;> simp) _ _ (by omega) ht, Bool.or_eq_true,
      (hp _ _).2 t ht, clampHolds_snoc ht, hk]
    refine or_congr_right ?_
    cases b
    · simp only [Bool.false_eq_true, if_false, Int.reduceEq, decide_False, Bool.and_false, false_and]
    · simp only [hr, hcol, if_true, decide_True, Bool.and_true, decide_eq_true_eq, true_and]
  · rw [if_neg hrc]
    refine ⟨(hp r c).1, fun t ht => ?_⟩
    rw [(hp r c).2 t ht, clampHolds_snoc ht, or_iff_left]
    rintro ⟨-, rfl, rfl, -⟩
    exact hrc ⟨hr.symm, hcol.symm⟩

/-! ## The `stderr` lines -/

/-- The `stderr` lines `pwm_demod` writes while it receives `rows`, the first of them row
`i` of the transmission: before each row from row 12 on, `p->bits_row_idx>11!`; within
it, one `p->bits_col_idx>4!` for each byte it completes from byte 4 on. -/
def overflowMessages (i : Nat) : List (List Bool) → List DemodEvent
  | [] => []
  | row :: rows =>
    (if 12 ≤ i then [.rowOverflow] else []) ++ List.replicate (row.length / 8 - 4) .colOverflow ++
      overflowMessages (i + 1) rows

theorem overflowMessages_append (i : Nat) (xs ys : List (List Bool)) :
    overflowMessages i (xs ++ ys) = overflowMessages i xs ++ overflowMessages (i + xs.length) ys := by
  induction xs generalizing i with
  | nil => rfl
  | cons x xs ih => simp [overflowMessages, ih, Nat.add_right_comm, Nat.add_assoc]

example : overflowMessages 0 [List.replicate 40 true] = [.colOverflow] := by decide
example : overflowMessages 0 (List.replicate 13 [true]) = [.rowOverflow] := by decide

/-- The byte lines of a row one bit longer: one more exactly when the new bit completes a
byte from byte 4 on. -/
theorem replicate_colOverflow_succ (n : Nat) :
    List.replicate ((n + 1) / 8 - 4) DemodEvent.colOverflow =
      List.replicate (n / 8 - 4) .colOverflow ++
        if n % 8 = 7 ∧ 4 ≤ n / 8 then [.colOverflow] else [] := by
  split
  · rw [show (n + 1) / 8 - 4 = n / 8 - 4 + 1 by omega, List.replicate_succ']
  · rw [show (n + 1) / 8 - 4 = n / 8 - 4 by omega, List.append_nil]

/-! ## Inside a pulse, clamped -/

/-- The state inside the last pulse of a transmission under way: rows `done` finished
and row `cur` in progress, held clamped in `bits_buffer` with the clamped cursor after
them; the instance counts the pulse and keeps its limits. -/
structure AfterPulseClamped (shortLimit longLimit resetLimit : Int) (p : ProtocolState)
    (done : List (List Bool)) (cur : List Bool) : Prop where
  limits : p.shortLimit = shortLimit ∧ p.longLimit = longLimit ∧ p.resetLimit = resetLimit
  flags : p.pulseCount = 1 ∧ p.startC = 1 ∧ p.pulseDistance = 0
  packs : ClampPacks p.bitsBuffer (done ++ [cur])
  cursor : p.CursorAt (min done.length 11) cur.length

section Steps

variable {levelLimit shortLimit longLimit resetLimit : Int} {p : ProtocolState}
  {done : List (List Bool)} {cur : List Bool}

/-- **The first pulse**, from an idle instance cleared by `demod_reset_bits_packet`. -/
theorem afterPulseClamped_start
    (hidle : p.pulseCount = 0 ∧ p.pulseDistance = 0 ∧ p.startC = 0 ∧ p.sampleCounter = 0)
    {pulse : List Int} (hw : FirstPulse levelLimit p.resetLimit pulse) :
    AfterPulseClamped p.shortLimit p.longLimit p.resetLimit
        (pwmDemod levelLimit (demodResetBitsPacket p) pulse).1 [] [] ∧
      (pwmDemod levelLimit (demodResetBitsPacket p) pulse).2 = [] := by
  obtain ⟨hxs, hlen, hr⟩ := hw
  rw [pwmDemod_pulse pulse hxs (List.ne_nil_of_length_pos (by omega)) (by exact hidle.2.1)
    (by simp [demodResetBitsPacket, hidle.2.2.2, hr])]
  exact ⟨⟨⟨rfl, rfl, rfl⟩, ⟨rfl, rfl, hidle.2.1⟩, clampPacks_cleared, ⟨rfl, rfl, rfl⟩⟩, rfl⟩

/-- **One bit.** A gap in the band of bit `b` and the pulse after it append `b` to the
row under way, whatever its length, with a byte line when `b` completes byte 4 or a
later one. -/
theorem afterPulseClamped_bitWave (h : AfterPulseClamped shortLimit longLimit resetLimit p done cur)
    {b : Bool} {gap pulse : List Int} (hgap : IsGap levelLimit gap)
    (hne : gap ≠ []) (hband : GapBit shortLimit longLimit (gap.length + 1) b)
    (hpulse : IsPulse levelLimit pulse) (hw : 2 ≤ pulse.length)
    (hgw : (gap.length + pulse.length : Int) ≤ resetLimit) :
    AfterPulseClamped shortLimit longLimit resetLimit (pwmDemod levelLimit p (gap ++ pulse)).1 done
        (cur ++ [b]) ∧
      (pwmDemod levelLimit p (gap ++ pulse)).2 =
        if cur.length % 8 = 7 ∧ 4 ≤ cur.length / 8 then [.colOverflow] else [] := by
  obtain ⟨⟨hs, hl, hr⟩, ⟨hpc, hst, -⟩, hpk, hcur⟩ := h
  have hwrap : (p.bitsBitColIdx ≤ 0 ∧ 4 ≤ p.bitsColIdx) ↔
      (cur.length % 8 = 7 ∧ 4 ≤ cur.length / 8) := by
    rw [hcur.2.1, hcur.2.2]; omega
  rw [pwmDemod_append, pwmDemod_fallGap gap hgap hne hpc hst (by omega),
    pwmDemod_bitPulse b pulse hpulse hw rfl (by simpa [hs, hl] using hband) (by simp; omega)]
  refine ⟨⟨by simp [hs, hl, hr], by simp, clampPacks_demodAddBit (by exact hpk) (by exact hcur) b,
    ?_⟩, ?_⟩
  · rw [List.length_append, List.length_singleton]
    exact cursorAt_demodAddBit (by exact hcur) _
  · simp only [List.nil_append, demodAddBit_snd, hwrap]

/-- **A row advance.** A separator gap and the first pulse of the next row close the
row under way and open an empty one, with a row line when the closed row was row 11 or
a later one. -/
theorem afterPulseClamped_separatorWave
    (h : AfterPulseClamped shortLimit longLimit resetLimit p done cur)
    (hsl : shortLimit ≤ longLimit) {gap pulse : List Int}
    (hgap : IsGap levelLimit gap) (hne : gap ≠ []) (hsep : longLimit ≤ gap.length + 1)
    (hg : (gap.length : Int) ≤ resetLimit) (hpulse : FirstPulse levelLimit resetLimit pulse) :
    AfterPulseClamped shortLimit longLimit resetLimit (pwmDemod levelLimit p (gap ++ pulse)).1
        (done ++ [cur]) [] ∧
      (pwmDemod levelLimit p (gap ++ pulse)).2 =
        if 11 ≤ done.length then [.rowOverflow] else [] := by
  obtain ⟨⟨hs, hl, hr⟩, ⟨hpc, hst, -⟩, hpk, hrow, -, -⟩ := h
  obtain ⟨hxs, hw, hwr⟩ := hpulse
  have hlast : 11 ≤ p.bitsRowIdx ↔ 11 ≤ done.length := by rw [hrow]; omega
  rw [pwmDemod_append, pwmDemod_fallGap gap hgap hne hpc hst (by omega),
    pwmDemod_separatorPulse pulse hxs hw rfl (by simpa [hl] using hsep) (by simpa [hs, hl] using hsl)
      (by simp; omega)]
  refine ⟨⟨by simp [hs, hl, hr], by simp, by simpa using clampPacks_append_nil hpk, ?_⟩, ?_⟩
  · simp only [ProtocolState.CursorAt, demodNextBitsPacket_fst, List.length_append,
      List.length_singleton]
    exact ⟨by omega, rfl, rfl⟩
  · simp only [List.nil_append, List.append_nil, demodNextBitsPacket_snd, hlast]

/-- **A row's bits**, by induction on the row: the tail of a row started empty appends
its bits, with one byte line for each byte it completes from byte 4 on. -/
theorem afterPulseClamped_rowTail (h : AfterPulseClamped shortLimit longLimit resetLimit p done [])
    {bits : List Bool} {xs : List Int}
    (hw : RowTail levelLimit shortLimit longLimit resetLimit bits xs) :
    AfterPulseClamped shortLimit longLimit resetLimit (pwmDemod levelLimit p xs).1 done bits ∧
      (pwmDemod levelLimit p xs).2 = List.replicate (bits.length / 8 - 4) .colOverflow := by
  induction hw with
  | nil => exact ⟨h, rfl⟩
  | snoc b _ hgap hne hband hpulse hw hgw ih =>
    obtain ⟨h₁, e₁⟩ := ih
    obtain ⟨h₂, e₂⟩ := afterPulseClamped_bitWave h₁ hgap hne hband hpulse hw hgw
    rw [pwmDemod_append, e₁, e₂, List.length_append, List.length_singleton,
      replicate_colOverflow_succ]
    exact ⟨h₂, rfl⟩

end Steps

/-! ## A transmission of any size -/

section Packet

variable {levelLimit : Int} {p : ProtocolState}

/-- **The run lemma.** A packet of any number of rows of any length, sent to an idle
instance cleared by `demod_reset_bits_packet`, leaves it inside the packet's last pulse
with the rows held clamped, having written exactly the packet's overflow lines. -/
theorem afterPulseClamped_packetWave
    (hidle : p.pulseCount = 0 ∧ p.pulseDistance = 0 ∧ p.startC = 0 ∧ p.sampleCounter = 0)
    (hsl : p.shortLimit ≤ p.longLimit) {rows : List (List Bool)} {xs : List Int}
    (hw : PacketWave levelLimit p.shortLimit p.longLimit p.resetLimit rows xs) :
    ∃ done cur, rows = done ++ [cur] ∧
      AfterPulseClamped p.shortLimit p.longLimit p.resetLimit
        (pwmDemod levelLimit (demodResetBitsPacket p) xs).1 done cur ∧
      (pwmDemod levelLimit (demodResetBitsPacket p) xs).2 = overflowMessages 0 rows := by
  induction hw with
  | first hpulse htail =>
    obtain ⟨h₁, e₁⟩ := afterPulseClamped_start hidle hpulse
    obtain ⟨h₂, e₂⟩ := afterPulseClamped_rowTail h₁ htail
    refine ⟨[], _, rfl, ?_⟩
    rw [pwmDemod_append, e₁, e₂]
    exact ⟨h₂, by simp [overflowMessages]⟩
  | next _ hgap hne hsep hg hpulse htail ih =>
    obtain ⟨done, cur, rfl, h₁, e₁⟩ := ih
    obtain ⟨h₂, e₂⟩ := afterPulseClamped_separatorWave h₁ hsl hgap hne hsep hg hpulse
    obtain ⟨h₃, e₃⟩ := afterPulseClamped_rowTail h₂ htail
    refine ⟨done ++ [cur], _, rfl, ?_⟩
    rw [pwmDemod_append, pwmDemod_append, e₁, e₂, e₃, overflowMessages_append 0 (done ++ [cur])]
    exact ⟨h₃, by simp [overflowMessages]⟩

/-- **A transmission of any size.** For an idle instance cleared by
`demod_reset_bits_packet` with `short_limit ≤ long_limit` and `reset_limit < INT_MAX`, a
packet of any rows closed by more than `reset_limit` samples below the level makes
`pwm_demod` write, however the stream is split into calls, exactly the packet's overflow
lines and then the one packet, the rows clamped into the 12 × 5 bytes; no
`sample_counter++` of the run leaves `int`. -/
theorem pwmDemodCalls_overflow (levelLimit : Int) (p : ProtocolState)
    (hidle : p.pulseCount = 0 ∧ p.pulseDistance = 0 ∧ p.startC = 0 ∧ p.sampleCounter = 0)
    (hsl : p.shortLimit ≤ p.longLimit) (hmax : p.resetLimit < 2 ^ 31 - 1)
    (rows : List (List Bool)) (xs silence : List Int)
    (hw : PacketWave levelLimit p.shortLimit p.longLimit p.resetLimit rows xs)
    (hsil : IsGap levelLimit silence) (hlen : p.resetLimit < silence.length)
    (calls : List (List Int)) (hcalls : calls.flatten = xs ++ silence) :
    (pwmDemodCalls levelLimit (demodResetBitsPacket p) calls).2 =
        overflowMessages 0 rows ++ [.printBitsPacket (clampRows rows)] ∧
      CounterFits levelLimit (demodResetBitsPacket p) calls.flatten := by
  have hr2 := hw.two_le_reset
  obtain ⟨done, cur, rfl, ⟨⟨-, -, hr⟩, ⟨hpc, hst, -⟩, hpk, -⟩, e⟩ :=
    afterPulseClamped_packetWave hidle hsl hw
  refine ⟨?_, counterFits_of_inv (by simp [demodResetBitsPacket]; omega)
    (by simpa [demodResetBitsPacket] using hmax)
    (inv_demodResetBitsPacket (by omega) ⟨hidle.1, .inl hidle.2.1, hidle.2.2.1⟩ hidle.2.2.2) _ _⟩
  rw [pwmDemodCalls_eq, hcalls, pwmDemod_append, e,
    pwmDemod_fallSilence_eq silence hsil hpc hst (by omega) (by omega), bitsSnapshot_of_clampPacks hpk]

/-- A Rubicson row of 41 one bits, keyed as the source's comment gives, then 5001 samples
of silence. -/
theorem pwmDemodCalls_overflow_rubicson :
    (pwmDemodCalls 10000 (demodResetBitsPacket rubicsonInit)
        [rubicsonCommentKeying.packet [List.replicate 41 true] ++ List.replicate 5001 0]).2 =
        overflowMessages 0 [List.replicate 41 true] ++
          [.printBitsPacket (clampRows [List.replicate 41 true])] ∧
      CounterFits 10000 (demodResetBitsPacket rubicsonInit)
        [rubicsonCommentKeying.packet [List.replicate 41 true] ++ List.replicate 5001 0].flatten :=
  pwmDemodCalls_overflow 10000 rubicsonInit (by decide) (by decide) (by decide) _ _
    (List.replicate 5001 0) (rubicsonCommentKeying.packetWave_packet _ [])
    (isGap_replicate 10000 (by decide) _) (by rw [List.length_replicate]; decide) _
    (by simp only [List.flatten_cons, List.flatten_nil, List.append_nil])

end Packet

end Rtl433
