import Rtl433.Decode

/-!
# Rtl433 — the two sensors, end to end

The source's header comments describe what the two sensors send: 36-bit frames of nine
nibbles, PWM keyed, repeated 7 times after a lone pulse (Prologue) or 12 times (Rubicson).
This module writes the frames down as the comments give them and follows a reading from
the sensor to the lines `demod_print_bits_packet` prints.

* `PrologueFrame`, `RubicsonFrame` — a frame's fields, each in its range; `prologueBits`
  and `rubicsonBits` lay them out MSB-first;
* `PwmTiming` — the pulse and gap lengths of a sensor that an instance with given limits
  decodes, each gap's counter in its band; `PwmTiming.packet` keys rows with them;
* **`PwmTiming.ready_sends`** — the run lemma: transmissions one after another, each with
  a silence longer than `reset_limit`, are printed once each, in order, and leave the
  instance waiting for the next;
* **`prologue_readings_printed`**, **`rubicson_readings_printed`** — for every sequence of
  readings, however the samples are split into `pwm_demod` calls, the lines printed are
  the readings' fields.

The decoder side rests on `fieldValue_natBits` and the two append lemmas: a field written
with `natBits` reads back at its offset, whatever surrounds it.
-/

namespace Rtl433

/-! ## Fields on the wire

A sensor sends each field most significant bit first, as `fieldValue` reads it back. A
field inside one part of a row ignores the other part, so a frame's fields can be read
one by one. -/

/-- The `w` bits of `v`, most significant first. -/
def natBits (w v : Nat) : List Bool := (List.range w).map fun i => v.testBit (w - 1 - i)

@[simp] theorem length_natBits (w v : Nat) : (natBits w v).length = w := by simp [natBits]

theorem getD_natBits {w v i : Nat} (hi : i < w) :
    (natBits w v).getD i false = v.testBit (w - 1 - i) := by
  rw [List.getD_eq_getElem _ _ (by simpa using hi)]
  simp [natBits]

/-- **A field reads back**: `natBits w v` spells `v`. -/
theorem fieldValue_natBits {w v : Nat} (hv : v < 2 ^ w) : fieldValue (natBits w v) 0 w = v := by
  refine Nat.eq_of_testBit_eq fun k => ?_
  rw [testBit_fieldValue]
  by_cases hk : k < w
  · rw [Nat.zero_add, getD_natBits (by omega), show w - 1 - (w - 1 - k) = k by omega]
    simp [hk]
  · rw [Nat.testBit_lt_two_pow (lt_of_lt_of_le hv (Nat.pow_le_pow_right (by norm_num) (by omega)))]
    simp [hk]

/-- A field inside the first part of a row ignores what follows. -/
theorem fieldValue_append_left {xs : List Bool} (ys : List Bool) {o w : Nat}
    (h : o + w ≤ xs.length) :
    fieldValue (xs ++ ys) o w = fieldValue xs o w := by
  refine Nat.eq_of_testBit_eq fun k => ?_
  simp only [testBit_fieldValue]
  by_cases hk : k < w
  · rw [List.getD_append _ _ _ _ (by omega)]
  · simp [hk]

/-- A field past the first part of a row is a field of the rest. -/
theorem fieldValue_append_right (xs : List Bool) {ys : List Bool} {o w : Nat}
    (h : xs.length ≤ o) :
    fieldValue (xs ++ ys) o w = fieldValue ys (o - xs.length) w := by
  refine Nat.eq_of_testBit_eq fun k => ?_
  simp only [testBit_fieldValue]
  by_cases hk : k < w
  · rw [List.getD_append_right _ _ _ _ (by omega), show o + (w - 1 - k) - xs.length =
      o - xs.length + (w - 1 - k) by omega]
  · simp [hk]

/-- A temperature in tenths as the sensors send it: 12 bits of two's complement. -/
def tempBits (t : Int) : List Bool := natBits 12 (t % 4096).toNat

theorem signed12_tempBits {t : Int} (h : -2048 ≤ t ∧ t < 2048) :
    signed12 (t % 4096).toNat = t := by
  unfold signed12
  split_ifs <;> omega

/-! ## The two frames

Each field is a number in its range, so a frame that does not fit its 36 bits cannot be
built. The temperature is 12-bit two's complement in tenths of a degree. -/

/-- A Prologue frame, nine nibbles: `[id0] [rid0] [rid1] [data0] [temp0] [temp1] [temp2]
[unk0] [unk1]`. `data(3)` is 0 on the first reading, `data(2)` is the button and
`data(1,0)` the channel less one. -/
structure PrologueFrame where
  id : Nat
  rid : Nat
  firstReading : Bool
  button : Bool
  channelBits : Nat
  temp : Int
  unk : Nat
  id_lt : id < 2 ^ 4
  rid_lt : rid < 2 ^ 8
  channelBits_lt : channelBits < 2 ^ 2
  temp_mem : -2048 ≤ temp ∧ temp < 2048
  unk_lt : unk < 2 ^ 8

/-- The 36 bits of a Prologue frame, in the order it sends them. -/
def prologueBits (f : PrologueFrame) : List Bool :=
  natBits 4 f.id ++ natBits 8 f.rid ++ natBits 1 (!f.firstReading).toNat ++
    natBits 1 f.button.toNat ++ natBits 2 f.channelBits ++ tempBits f.temp ++ natBits 8 f.unk

/-- A Rubicson frame, nine nibbles: `[id0] [id1], [unk0] [temp0], [temp1] [temp2], [unk1]
[unk2], [unk3]`. -/
structure RubicsonFrame where
  id : Nat
  unk0 : Nat
  temp : Int
  unk : Nat
  id_lt : id < 2 ^ 8
  unk0_lt : unk0 < 2 ^ 4
  temp_mem : -2048 ≤ temp ∧ temp < 2048
  unk_lt : unk < 2 ^ 12

/-- The 36 bits of a Rubicson frame. -/
def rubicsonBits (f : RubicsonFrame) : List Bool :=
  natBits 8 f.id ++ natBits 4 f.unk0 ++ tempBits f.temp ++ natBits 12 f.unk

/-- Sensor 9 with random id `5a`: a first reading of 23.4 °C on channel 1. -/
def prologueFirstReading : PrologueFrame :=
  ⟨9, 0x5A, true, false, 0, 234, 0xCC, by decide, by decide, by decide, by decide, by decide⟩

/-- The same sensor at -1.5 °C, button pressed, channel 3. -/
def prologueButtonReading : PrologueFrame :=
  ⟨9, 0x5A, false, true, 2, -15, 0xCC, by decide, by decide, by decide, by decide, by decide⟩

/-- Sensor `a3` at 21.5 °C, `unk0` as the comment has it. -/
def rubicsonReading : RubicsonFrame :=
  ⟨0xA3, 8, 215, 0x0F0, by decide, by decide, by decide, by decide⟩

/-- The same sensor at -3.7 °C. -/
def rubicsonFrostReading : RubicsonFrame :=
  ⟨0xA3, 8, -37, 0x0F0, by decide, by decide, by decide, by decide⟩

/-- The Prologue lines `demod_print_bits_packet` prints. -/
structure PrologueLines where
  button : Nat
  firstReading : Nat
  temp : TempText
  channel : Nat
  id : Nat
  rid : Nat
deriving DecidableEq, Repr

def PrintedPacket.prologueLines (q : PrintedPacket) : PrologueLines :=
  ⟨q.button, q.firstReading, q.temp2, q.channel, q.id, q.rid⟩

/-- What those lines say of a frame: its button and first-reading flags, its temperature,
its channel and its two ids. -/
def PrologueFrame.lines (f : PrologueFrame) : PrologueLines :=
  ⟨f.button.toNat, f.firstReading.toNat, tempText f.temp, f.channelBits + 1, f.id, f.rid⟩

/-- The Rubicson lines: `"rid = %x"` and `"temp = %s%d.%d"`. -/
structure RubicsonLines where
  rid : Nat
  temp : TempText
deriving DecidableEq, Repr

def PrintedPacket.rubicsonLines (q : PrintedPacket) : RubicsonLines := ⟨q.rubicsonRid, q.temp⟩

def RubicsonFrame.lines (f : RubicsonFrame) : RubicsonLines := ⟨f.id, tempText f.temp⟩

/-! ## The decoder reads a frame back

Of a packet whose row 1 (Prologue) or row 0 (Rubicson) is a frame, the byte expressions
of `demod_print_bits_packet` (`prologue_fields`, `rubicson_fields`) read its fields. -/

theorem fieldValue_prologueBits (f : PrologueFrame) :
    fieldValue (prologueBits f) 0 4 = f.id ∧ fieldValue (prologueBits f) 4 8 = f.rid ∧
      fieldValue (prologueBits f) 12 1 = (!f.firstReading).toNat ∧
      fieldValue (prologueBits f) 13 1 = f.button.toNat ∧
      fieldValue (prologueBits f) 14 2 = f.channelBits ∧
      fieldValue (prologueBits f) 16 12 = (f.temp % 4096).toNat := by
  simp (disch := simp) only [prologueBits, tempBits, fieldValue_append_left,
    fieldValue_append_right, length_natBits, List.length_append, fieldValue_natBits f.id_lt,
    fieldValue_natBits f.rid_lt, fieldValue_natBits (w := 1) (Bool.toNat_lt _),
    fieldValue_natBits f.channelBits_lt,
    fieldValue_natBits (show (f.temp % 4096).toNat < 2 ^ 12 by omega), and_self]

theorem fieldValue_rubicsonBits (f : RubicsonFrame) :
    fieldValue (rubicsonBits f) 0 8 = f.id ∧
      fieldValue (rubicsonBits f) 12 12 = (f.temp % 4096).toNat := by
  simp (disch := simp) only [rubicsonBits, tempBits, fieldValue_append_left,
    fieldValue_append_right, length_natBits, List.length_append, fieldValue_natBits f.id_lt,
    fieldValue_natBits (show (f.temp % 4096).toNat < 2 ^ 12 by omega), and_self]

/-- Of a packet whose row 1 is a Prologue frame, `demod_print_bits_packet` prints the
frame's fields. -/
theorem prologueLines_packRows (f : PrologueFrame) {rows : List (List Bool)}
    (h : rows.getD 1 [] = prologueBits f) :
    (demodPrintBitsPacket (packRows rows)).prologueLines = f.lines := by
  obtain ⟨hbutton, hfirst, htemp2, hchannel, hid, hrid⟩ := prologue_fields (prologueBits f)
  obtain ⟨h0, h4, h12, h13, h14, h16⟩ := fieldValue_prologueBits f
  simp (disch := decide) only [PrintedPacket.prologueLines, demodPrintBitsPacket, cell_packRows,
    Nat.reduceMul, hbutton, hfirst, htemp2, hchannel, hid, hrid, h, h0, h4, h12, h13, h14, h16,
    signed12_tempBits f.temp_mem, PrologueFrame.lines]
  cases f.firstReading <;> rfl

/-- Of a packet whose row 0 is a Rubicson frame, it prints the frame's id and
temperature. -/
theorem rubicsonLines_packRows (f : RubicsonFrame) {rows : List (List Bool)}
    (h : rows.getD 0 [] = rubicsonBits f) :
    (demodPrintBitsPacket (packRows rows)).rubicsonLines = f.lines := by
  obtain ⟨h0, h12⟩ := fieldValue_rubicsonBits f
  simp (disch := decide) only [PrintedPacket.rubicsonLines, demodPrintBitsPacket, cell_packRows,
    Nat.reduceMul, rubicson_fields, h, h0, h12, signed12_tempBits f.temp_mem, RubicsonFrame.lines]

/-! ## A PWM transmitter

A sensor keys each bit as a gap and a pulse: a gap whose counter lies below
`short_limit` is a 0, one below `long_limit` a 1, and a longer one starts the next row.
`PwmTiming` carries the bands as fields, so every timing built is one the instance reads
as sent: its rows form a `PacketWave`. -/

/-- The timing of a PWM sensor that an instance with these limits decodes: pulses of
`width ≥ 2` samples at `hi`, and gaps at `lo` of `zeroGap` samples for a 0 bit, `oneGap`
for a 1 bit and `rowGap` between rows, each gap's counter (its length plus one) in its
band. -/
structure PwmTiming (levelLimit shortLimit longLimit resetLimit : Int) where
  hi : Int
  lo : Int
  width : Nat
  zeroGap : Nat
  oneGap : Nat
  rowGap : Nat
  hi_gt : levelLimit < hi
  lo_lt : lo < levelLimit
  two_le_width : 2 ≤ width
  zeroGap_pos : 0 < zeroGap
  zero_band : (zeroGap : Int) + 1 < shortLimit
  one_band : shortLimit ≤ (oneGap : Int) + 1 ∧ (oneGap : Int) + 1 < longLimit
  row_band : longLimit ≤ (rowGap : Int) + 1 ∧ (rowGap : Int) ≤ resetLimit
  one_fits : (oneGap + width : Int) ≤ resetLimit

/-- The timing the source's comment gives at level 10000: pulses of 604 samples, and gaps
of 1158 (`PW short`), 2330 (`PW long`) and 4670 (`PW next`) samples. -/
def rubicsonCommentKeying : PwmTiming 10000 1744 3500 5000 :=
  ⟨20000, 0, 604, 1158, 2330, 4670, by decide, by decide, by decide, by decide, by decide,
    by decide, by decide, by decide⟩

/-- Pulses of 1000 samples at 20000, gaps at 0 of 2000, 4000 and 9000 samples: a timing
the Prologue instance decodes at level 10000. -/
def prologueKeying : PwmTiming 10000 3500 7000 15000 :=
  ⟨20000, 0, 1000, 2000, 4000, 9000, by decide, by decide, by decide, by decide, by decide,
    by decide, by decide, by decide⟩

namespace PwmTiming

variable {levelLimit shortLimit longLimit resetLimit : Int}
  (t : PwmTiming levelLimit shortLimit longLimit resetLimit)

/-- The gap that keys bit `b`. -/
def gap (b : Bool) : Nat := if b then t.oneGap else t.zeroGap

/-- One row: a first pulse, then each bit as its gap and a pulse. -/
def row (bits : List Bool) : List Int :=
  List.replicate t.width t.hi ++
    bits.flatMap fun b => List.replicate (t.gap b) t.lo ++ List.replicate t.width t.hi

/-- A packet: its rows, each after a row gap but the first. -/
def packet : List (List Bool) → List Int
  | [] => []
  | r :: rs => t.row r ++ rs.flatMap fun r => List.replicate t.rowGap t.lo ++ t.row r

theorem isPulse_pulse : IsPulse levelLimit (List.replicate t.width t.hi) :=
  fun _ hx => (List.eq_of_mem_replicate hx) ▸ t.hi_gt

theorem firstPulse_pulse : FirstPulse levelLimit resetLimit (List.replicate t.width t.hi) := by
  have := t.two_le_width; have := t.one_fits
  exact ⟨t.isPulse_pulse, by simpa using t.two_le_width, by simp; omega⟩

theorem gapBit_gap (b : Bool) : GapBit shortLimit longLimit ((t.gap b : Nat) + 1) b := by
  have := t.zero_band; have := t.one_band
  cases b <;> simp [GapBit, gap] <;> omega

/-- **The bits of a row** form its tail after the first pulse. -/
theorem rowTail_row (bits : List Bool) :
    RowTail levelLimit shortLimit longLimit resetLimit bits
      (bits.flatMap fun b => List.replicate (t.gap b) t.lo ++ List.replicate t.width t.hi) := by
  induction bits using List.reverseRecOn with
  | nil => exact .nil
  | append_singleton bits b ih =>
    have := t.zero_band; have := t.one_band; have := t.one_fits; have := t.zeroGap_pos
    rw [List.flatMap_append, List.flatMap_singleton]
    refine .snoc b ih (isGap_replicate levelLimit t.lo_lt _) ?_ (by simpa using t.gapBit_gap b)
      t.isPulse_pulse (by simpa using t.two_le_width) ?_
    · cases b <;> simp [gap] <;> omega
    · cases b <;> simp [gap] <;> omega

/-- **A packet of rows** forms a packet waveform. -/
theorem packetWave_packet (r : List Bool) (rs : List (List Bool)) :
    PacketWave levelLimit shortLimit longLimit resetLimit (r :: rs) (t.packet (r :: rs)) := by
  induction rs using List.reverseRecOn with
  | nil => simpa [packet, row] using PacketWave.first t.firstPulse_pulse (t.rowTail_row r)
  | append_singleton rs r' ih =>
    have := t.zero_band; have := t.one_band; have := t.row_band
    have h := PacketWave.next ih (isGap_replicate levelLimit t.lo_lt t.rowGap) (by simp; omega)
      (by simpa using t.row_band.1) (by simpa using t.row_band.2) t.firstPulse_pulse
      (t.rowTail_row r')
    simpa [packet, row, List.append_assoc] using h

end PwmTiming

/-! ## Transmissions one after another

The silence after a packet prints it and clears the instance (`pwmDemod_fallSilence_eq`),
which is then waiting as `main` left it: the step lemma `ready_send` chains into the run
lemma `ready_sends`. -/

/-- An instance waiting for a transmission: cleared by `demod_reset_bits_packet`, nothing
counting, and its limits as `main` set them. -/
def ProtocolState.Ready (shortLimit longLimit resetLimit : Int) (p : ProtocolState) : Prop :=
  ∃ q, p = demodResetBitsPacket q ∧ q.pulseCount = 0 ∧ q.pulseDistance = 0 ∧
    q.startC = 0 ∧ q.sampleCounter = 0 ∧ q.shortLimit = shortLimit ∧
    q.longLimit = longLimit ∧ q.resetLimit = resetLimit

theorem ProtocolState.ready_init (shortLimit longLimit resetLimit : Int) :
    (ProtocolState.init shortLimit longLimit resetLimit).Ready shortLimit longLimit resetLimit :=
  ⟨_, rfl, rfl, rfl, rfl, rfl, rfl, rfl, rfl⟩

/-- A packet the matrix holds: 1 to 12 rows of at most 40 bits. -/
def PacketFits (rows : List (List Bool)) : Prop :=
  rows ≠ [] ∧ rows.length ≤ 12 ∧ ∀ row ∈ rows, row.length ≤ 40

namespace PwmTiming

variable {levelLimit shortLimit longLimit resetLimit : Int}
  (t : PwmTiming levelLimit shortLimit longLimit resetLimit)

/-- A packet, then `n` samples of silence. -/
def send (rows : List (List Bool)) (n : Nat) : List Int := t.packet rows ++ List.replicate n t.lo

/-- **One transmission.** From a waiting instance, a packet the matrix holds and more than
`reset_limit` samples of silence print exactly that packet and leave the instance
waiting again. -/
theorem ready_send {p : ProtocolState} (hp : p.Ready shortLimit longLimit resetLimit)
    {rows : List (List Bool)} (hrows : PacketFits rows) {n : Nat} (hn : resetLimit < n) :
    (pwmDemod levelLimit p (t.send rows n)).1.Ready shortLimit longLimit resetLimit ∧
      printedPackets (pwmDemod levelLimit p (t.send rows n)).2 = [packRows rows] := by
  obtain ⟨q, rfl, hpc, hpd, hst, hsc, rfl, rfl, rfl⟩ := hp
  obtain ⟨r, rs, rfl⟩ := List.exists_cons_of_ne_nil hrows.1
  have := t.zero_band; have := t.one_band; have := t.one_fits; have := t.two_le_width
  obtain ⟨done, cur, hdc, ⟨⟨hs, hl, hr⟩, ⟨hpc', hst', -⟩, hpk, -⟩, e⟩ :=
    afterPulse_packetWave ⟨hpc, hpd, hst, hsc⟩ (by omega) (t.packetWave_packet r rs) hrows.2.1
      hrows.2.2
  rw [send, pwmDemod_append, pwmDemod_fallSilence_eq _ (isGap_replicate levelLimit t.lo_lt n)
    hpc' hst' (by omega) (by simp; omega)]
  refine ⟨⟨_, rfl, rfl, rfl, rfl, rfl, hs, hl, hr⟩, ?_⟩
  rw [printedPackets_append, e, bitsSnapshot_of_packs hpk, ← hdc]
  rfl

/-- **Transmissions one after another**, each a packet the matrix holds and a silence
longer than `reset_limit`: by induction on the transmissions, each is printed once, in
the order sent, and the instance waits for the next. -/
theorem ready_sends (sends : List (List (List Bool) × Nat))
    (hsends : ∀ s ∈ sends, PacketFits s.1 ∧ resetLimit < s.2) {p : ProtocolState}
    (hp : p.Ready shortLimit longLimit resetLimit) :
    (pwmDemod levelLimit p (sends.flatMap fun s => t.send s.1 s.2)).1.Ready shortLimit longLimit
        resetLimit ∧
      printedPackets (pwmDemod levelLimit p (sends.flatMap fun s => t.send s.1 s.2)).2 =
        sends.map fun s => packRows s.1 := by
  induction sends generalizing p with
  | nil => exact ⟨hp, rfl⟩
  | cons s sends ih =>
    obtain ⟨hs, hss⟩ := List.forall_mem_cons.mp hsends
    obtain ⟨h₁, e₁⟩ := t.ready_send hp hs.1 hs.2
    obtain ⟨h₂, e₂⟩ := ih hss h₁
    rw [List.flatMap_cons, pwmDemod_append, printedPackets_append, e₁, e₂]
    exact ⟨h₂, rfl⟩

end PwmTiming

/-! ## The sensors, end to end -/

/-- What a Prologue sensor sends for one reading: a lone pulse, then the frame 7 times. -/
def prologueRows (f : PrologueFrame) : List (List Bool) := [] :: List.replicate 7 (prologueBits f)

/-- What a Rubicson sensor sends for one reading: the frame 12 times. -/
def rubicsonRows (f : RubicsonFrame) : List (List Bool) := List.replicate 12 (rubicsonBits f)

theorem packetFits_prologueRows (f : PrologueFrame) : PacketFits (prologueRows f) := by
  refine ⟨List.cons_ne_nil _ _, by simp [prologueRows], fun row h => ?_⟩
  simp only [prologueRows, List.mem_cons, List.mem_replicate] at h
  rcases h with rfl | ⟨-, rfl⟩ <;> simp [prologueBits, tempBits]

theorem packetFits_rubicsonRows (f : RubicsonFrame) : PacketFits (rubicsonRows f) := by
  refine ⟨by simp [rubicsonRows], by simp [rubicsonRows], fun row h => ?_⟩
  obtain ⟨-, rfl⟩ := List.mem_replicate.mp h
  simp [rubicsonBits, tempBits]

/-- Readings of one sensor, each sent with its own silence: one printed packet per
reading, in order. -/
theorem printedPackets_sends {α : Type} {levelLimit shortLimit longLimit resetLimit : Int}
    (t : PwmTiming levelLimit shortLimit longLimit resetLimit) (rowsOf : α → List (List Bool))
    (hfit : ∀ a, PacketFits (rowsOf a)) (readings : List (α × Nat))
    (hsil : ∀ s ∈ readings, resetLimit < s.2) (calls : List (List Int))
    (hcalls : calls.flatten = readings.flatMap fun s => t.send (rowsOf s.1) s.2) :
    printedPackets (pwmDemodCalls levelLimit (.init shortLimit longLimit resetLimit) calls).2 =
      readings.map fun s => packRows (rowsOf s.1) := by
  have h := (t.ready_sends (readings.map fun s => (rowsOf s.1, s.2))
    (by
      simp only [List.mem_map, Prod.exists]
      rintro _ ⟨a, n, h, rfl⟩
      exact ⟨hfit a, hsil _ h⟩)
    (ProtocolState.ready_init shortLimit longLimit resetLimit)).2
  rw [List.flatMap_map, List.map_map] at h
  rw [pwmDemodCalls_eq, hcalls, h]
  rfl

/-- **Every Prologue reading is printed, once, in order.** A Prologue sensor keyed with
any timing the Prologue instance decodes sends readings one after another, each followed
by a silence longer than its `reset_limit` of 15000 samples. However the samples are split
into `pwm_demod` calls, the instance prints one packet per reading, and the Prologue lines
of each are that reading's fields. -/
theorem prologue_readings_printed (levelLimit : Int) (t : PwmTiming levelLimit 3500 7000 15000)
    (readings : List (PrologueFrame × Nat)) (hsil : ∀ s ∈ readings, 15000 < s.2)
    (calls : List (List Int))
    (hcalls : calls.flatten = readings.flatMap fun s => t.send (prologueRows s.1) s.2) :
    (printedPackets (pwmDemodCalls levelLimit prologueInit calls).2).map
        (fun q => (demodPrintBitsPacket q).prologueLines) = readings.map fun s => s.1.lines := by
  rw [prologueInit, printedPackets_sends t prologueRows packetFits_prologueRows readings
    (fun s h => by exact_mod_cast hsil s h) calls hcalls, List.map_map]
  exact List.map_congr_left fun s _ => prologueLines_packRows s.1 rfl

/-- The two readings, one per call. -/
theorem prologue_two_readings_printed :
    (printedPackets (pwmDemodCalls 10000 prologueInit
        [prologueKeying.send (prologueRows prologueFirstReading) 15001,
          prologueKeying.send (prologueRows prologueButtonReading) 15001]).2).map
        (fun q => (demodPrintBitsPacket q).prologueLines) =
      [⟨0, 1, ⟨false, 23, 4⟩, 1, 9, 0x5A⟩, ⟨1, 0, ⟨true, 1, 5⟩, 3, 9, 0x5A⟩] := by
  rw [prologue_readings_printed 10000 prologueKeying
    [(prologueFirstReading, 15001), (prologueButtonReading, 15001)] (by decide) _ (by simp)]
  decide

/-- **Every Rubicson reading is printed, once, in order.** The same for a Rubicson sensor
and the Rubicson instance, whose `reset_limit` is 5000: one packet per reading, whose
`rid` and temperature lines are the reading's id and temperature. -/
theorem rubicson_readings_printed (levelLimit : Int) (t : PwmTiming levelLimit 1744 3500 5000)
    (readings : List (RubicsonFrame × Nat)) (hsil : ∀ s ∈ readings, 5000 < s.2)
    (calls : List (List Int))
    (hcalls : calls.flatten = readings.flatMap fun s => t.send (rubicsonRows s.1) s.2) :
    (printedPackets (pwmDemodCalls levelLimit rubicsonInit calls).2).map
        (fun q => (demodPrintBitsPacket q).rubicsonLines) = readings.map fun s => s.1.lines := by
  rw [rubicsonInit, printedPackets_sends t rubicsonRows packetFits_rubicsonRows readings
    (fun s h => by exact_mod_cast hsil s h) calls hcalls, List.map_map]
  exact List.map_congr_left fun s _ => rubicsonLines_packRows s.1 (by simp [rubicsonRows])

/-- Two readings keyed with the comment's timing, one per call. -/
theorem rubicson_two_readings_printed :
    (printedPackets (pwmDemodCalls 10000 rubicsonInit
        [rubicsonCommentKeying.send (rubicsonRows rubicsonReading) 5001,
          rubicsonCommentKeying.send (rubicsonRows rubicsonFrostReading) 5001]).2).map
        (fun q => (demodPrintBitsPacket q).rubicsonLines) =
      [⟨0xA3, ⟨false, 21, 5⟩⟩, ⟨0xA3, ⟨true, 3, 7⟩⟩] := by
  rw [rubicson_readings_printed 10000 rubicsonCommentKeying
    [(rubicsonReading, 5001), (rubicsonFrostReading, 5001)] (by decide) _ (by simp)]
  decide

end Rtl433
