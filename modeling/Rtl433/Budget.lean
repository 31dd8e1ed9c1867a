import Rtl433.Bounds
import Rtl433.Session

/-!
# Rtl433 — the `-n` budget over a run of callbacks

`budgetRun` is the gate of `rtlsdr_callback` on its own: block by block, the length it
lets through, from the budget state `(do_exit, bytes_to_read)`. With a file named, the
callback filters each length `l` it lets through and writes `l >> d` bytes of `f_buf`
(`rtlsdrCallback_gate`), so a run of callbacks writes, write after write, the lengths
`budgetRun` computes shifted by `d`, and is defined as long as each of them leaves the
filter two samples (`callbackRun_sinkLengths`). Over it, without decimation:

* **`callbackRun_budget_honoured`** — a budget `0 < 2N < 2^32` that no block boundary
  meets, and that falls at least two samples into the block it cuts, is honoured: the
  file holds exactly `min(2N, total)` bytes;
* **`syncLoop_eq_callbackRun`** — the `-S` loop, over reads of `out_block_size` bytes,
  writes round by round the byte counts the callback writes for the same blocks.

When the budget meets a block boundary it is not honoured (`budget_runs_out_on_boundary`).
-/

namespace Rtl433

/-! ## One callback, then a run -/

/-- **The callback charges the budget as `budgetCut` and `budgetAfter` say.** With a
file named, a dropped block changes nothing and writes nothing; a block cut to `l` bytes
whose filter gets two samples sets `do_exit` to the cut flag, charges `l`, and writes
`l >> d` bytes. -/
theorem rtlsdrCallback_gate (cfg : Config) (hsave : cfg.saveData = true) (hfile : cfg.hasFile = true)
    (rx : Receiver) (buf : Nat → UInt8) (len : Nat) :
    match budgetCut rx.doExit rx.bytesToRead len with
    | none => rtlsdrCallback cfg rx buf len = some (rx, [])
    | some (l, cut) => 2 ≤ l >>> (cfg.decimationLevel + 1) →
      ∃ rx' es, rtlsdrCallback cfg rx buf len = some (rx', es) ∧ rx'.doExit = cut ∧
        rx'.bytesToRead = budgetAfter rx.bytesToRead l ∧
        (sinkWrites es).map List.length = [l >>> cfg.decimationLevel] := by
  unfold rtlsdrCallback
  rw [if_pos (by rw [hfile, Bool.true_or])]
  rcases budgetCut rx.doExit rx.bytesToRead len with _ | ⟨l, cut⟩
  · rfl
  · intro h2
    obtain ⟨ys, st, hf, -⟩ := lowPassFilter_of_two_le ⟨rx.lpXmem, rx.filterBuffer 0⟩
      (show 2 ≤ ((List.range (l >>> (cfg.decimationLevel + 1))).map
        (loadU16 (envelopeDetect buf l cfg.decimationLevel))).length by
          rw [List.length_map, List.length_range]; exact h2)
    simp only [hf, Option.map_some']
    refine ⟨_, _, rfl, rfl, rfl, ?_⟩
    cases cut <;> cases ha : cfg.analyze <;> simp [runConsumers, ha, hsave]

/-- **The run writes what the gate lets through.** With a file named, from every budget
state, over blocks on which every length the gate lets through leaves the filter two
samples, the callbacks run and write, write after write, `l >> d` bytes for each length
`l` of `budgetRun`. -/
theorem callbackRun_sinkLengths (cfg : Config) (hsave : cfg.saveData = true)
    (hfile : cfg.hasFile = true) (rx : Receiver) (blocks : List (List UInt8))
    (hdef : ∀ l ∈ budgetRun rx.doExit rx.bytesToRead (blocks.map List.length),
      2 ≤ l >>> (cfg.decimationLevel + 1)) :
    ∃ rx' es, callbackRun cfg rx blocks = some (rx', es) ∧
      (sinkWrites es).map List.length =
        (budgetRun rx.doExit rx.bytesToRead (blocks.map List.length)).map (· >>> cfg.decimationLevel) := by
  induction blocks generalizing rx with
  | nil => exact ⟨rx, [], rfl, rfl⟩
  | cons blk blks ih =>
    have hgate := rtlsdrCallback_gate cfg hsave hfile rx (fun k => blk.getD k 0) blk.length
    simp only [List.map_cons, budgetRun] at hdef ⊢
    rcases hcut : budgetCut rx.doExit rx.bytesToRead blk.length with _ | ⟨l, cut⟩ <;>
      simp only [hcut] at hgate hdef ⊢
    · -- the block is dropped
      obtain ⟨rx', es, hrun, hw⟩ := ih rx hdef
      exact ⟨rx', es, by rw [callbackRun, hgate]; simp [hrun], hw⟩
    · -- the block is let through, cut to `l`
      obtain ⟨rx₁, es₁, hcb, hexit₁, hbudget₁, hw₁⟩ := hgate (hdef l (List.mem_cons_self _ _))
      obtain ⟨rx', es, hrun, hw⟩ := ih rx₁ (by
        rw [hexit₁, hbudget₁]; exact fun l' hl' => hdef l' (List.mem_cons_of_mem _ hl'))
      refine ⟨rx', es₁ ++ es, by rw [callbackRun, hcb]; simp [hrun], ?_⟩
      rw [sinkWrites_append, List.map_append, hw₁, hw, hexit₁, hbudget₁, List.map_cons]
      rfl

/-! ## What the budget lets through -/

/-- Once cancellation is requested, every later block is dropped. -/
theorem budgetRun_exit (bytesToRead : Nat) (lens : List Nat) :
    budgetRun true bytesToRead lens = [] := by
  induction lens with
  | nil => rfl
  | cons len lens ih => simp [budgetRun, budgetCut, ih]

/-- The budget left after a block it does not fall in. -/
theorem budgetAfter_of_le {bytesToRead len : Nat} (hpos : 0 < bytesToRead) (hlt : bytesToRead < 2 ^ 32)
    (hle : len ≤ bytesToRead) : budgetAfter bytesToRead len = bytesToRead - len := by
  rw [budgetAfter, if_pos hpos, wrap32_of_mem (by omega) (by omega)]
  omega

/-- A budget smaller than the block cuts it and stops the run. -/
theorem budgetRun_cut {bytesToRead len : Nat} (hpos : 0 < bytesToRead) (hc : bytesToRead < len)
    (lens : List Nat) : budgetRun false bytesToRead (len :: lens) = [bytesToRead] := by
  simp [budgetRun, budgetCut, hpos, hc, budgetRun_exit]

/-- A budget at least the block lets it through whole and is charged for it. -/
theorem budgetRun_whole {bytesToRead len : Nat} (hpos : 0 < bytesToRead) (hlt : bytesToRead < 2 ^ 32)
    (hle : len ≤ bytesToRead) (lens : List Nat) :
    budgetRun false bytesToRead (len :: lens) = len :: budgetRun false (bytesToRead - len) lens := by
  simp [budgetRun, budgetCut, budgetAfter_of_le hpos hlt hle, show ¬bytesToRead < len by omega]

section Honoured

/-! A budget `0 < b < 2^32` that no block boundary meets: it cuts the block it falls in
to the `b - s` bytes left of it, `s` the bytes before, and requests cancellation. -/

/-- Past a whole block, the budget left meets no boundary of the blocks after it. -/
theorem take_sum_ne_tail {len bytesToRead : Nat} {lens : List Nat} (hle : len ≤ bytesToRead)
    (hnb : ∀ k, ((len :: lens).take k).sum ≠ bytesToRead) (k : Nat) :
    (lens.take k).sum ≠ bytesToRead - len := by
  have := hnb (k + 1)
  simp only [List.take_succ_cons, List.sum_cons] at this
  omega

variable (lens : List Nat) (bytesToRead : Nat) (hpos : 0 < bytesToRead)
  (hlt : bytesToRead < 2 ^ 32) (hnb : ∀ k, (lens.take k).sum ≠ bytesToRead)
include hpos hlt hnb

/-- **Exactly the budget is let through.** -/
theorem budgetRun_sum : (budgetRun false bytesToRead lens).sum = min bytesToRead lens.sum := by
  induction lens generalizing bytesToRead with
  | nil => simp [budgetRun]
  | cons len lens ih =>
    have hne : len ≠ bytesToRead := by simpa using hnb 1
    by_cases hc : bytesToRead < len
    · rw [budgetRun_cut hpos hc, List.sum_singleton, List.sum_cons]
      omega
    · rw [budgetRun_whole hpos hlt (by omega), List.sum_cons, List.sum_cons,
        ih (bytesToRead - len) (by omega) (by omega) (take_sum_ne_tail (by omega) hnb)]
      omega

/-- **Every length let through is at least `m`** when every block is and the budget falls
at least `m` bytes into the block it cuts. -/
theorem budgetRun_ge (m : Nat) (hlen : ∀ len ∈ lens, m ≤ len)
    (hcut : ∀ k, (lens.take k).sum < bytesToRead → bytesToRead < (lens.take (k + 1)).sum →
      m ≤ bytesToRead - (lens.take k).sum) :
    ∀ l ∈ budgetRun false bytesToRead lens, m ≤ l := by
  induction lens generalizing bytesToRead with
  | nil => simp [budgetRun]
  | cons len lens ih =>
    have hne : len ≠ bytesToRead := by simpa using hnb 1
    by_cases hc : bytesToRead < len
    · rw [budgetRun_cut hpos hc]
      simpa [hpos, hc] using hcut 0
    · rw [budgetRun_whole hpos hlt (by omega), List.forall_mem_cons]
      refine ⟨hlen len (List.mem_cons_self _ _), ih (bytesToRead - len) (by omega) (by omega)
        (take_sum_ne_tail (by omega) hnb) (fun x hx => hlen x (List.mem_cons_of_mem _ hx))
        fun k h1 h2 => ?_⟩
      have := hcut (k + 1)
      simp only [List.take_succ_cons, List.sum_cons] at this
      omega

end Honoured

/-- **A budget that no block boundary meets is honoured exactly.** With a file named and
without decimation, from a budget `0 < bytes_to_read < 2^32` and no pending exit, over
blocks of at least two samples each, when the budget differs from the byte count up to
every block boundary and falls at least two samples into the block it cuts, the
callbacks run and the file receives exactly `min bytes_to_read total` bytes. -/
theorem callbackRun_budget_honoured (cfg : Config) (hsave : cfg.saveData = true)
    (hfile : cfg.hasFile = true) (hd : cfg.decimationLevel = 0) (rx : Receiver)
    (hexit : rx.doExit = false) (hpos : 0 < rx.bytesToRead) (hlt : rx.bytesToRead < 2 ^ 32)
    (blocks : List (List UInt8)) (hlen : ∀ blk ∈ blocks, 4 ≤ blk.length)
    (hnb : ∀ k, ((blocks.map List.length).take k).sum ≠ rx.bytesToRead)
    (hcut : ∀ k, ((blocks.map List.length).take k).sum < rx.bytesToRead →
      rx.bytesToRead < ((blocks.map List.length).take (k + 1)).sum →
      4 ≤ rx.bytesToRead - ((blocks.map List.length).take k).sum) :
    ∃ rx' es, callbackRun cfg rx blocks = some (rx', es) ∧
      ((sinkWrites es).map List.length).sum = min rx.bytesToRead (blocks.map List.length).sum := by
  have hge := budgetRun_ge _ _ hpos hlt hnb 4 (by simpa using hlen) hcut
  obtain ⟨rx', es, hrun, hw⟩ := callbackRun_sinkLengths cfg hsave hfile rx blocks fun l hl => by
    have := hge l (hexit ▸ hl)
    rw [hd, Nat.shiftRight_eq_div_pow]
    omega
  refine ⟨rx', es, hrun, ?_⟩
  rw [hw, hexit, hd]
  simp only [Nat.shiftRight_zero, List.map_id']
  exact budgetRun_sum _ _ hpos hlt hnb

/-- A budget of 12 bytes over two 8-byte blocks of carrier: the second block is cut to 4
bytes, and the file gets 12. -/
theorem callbackRun_budget_honoured_mid_block :
    ∃ rx' es, callbackRun { decodeConfig with saveData := true, hasFile := true } (.init 12)
        [List.replicate 8 0x80, List.replicate 8 0x80] = some (rx', es) ∧
      ((sinkWrites es).map List.length).sum =
        min (Receiver.init 12).bytesToRead
          ([List.replicate 8 (0x80 : UInt8), List.replicate 8 0x80].map List.length).sum :=
  callbackRun_budget_honoured _ rfl rfl rfl _ rfl (by decide) (by decide) _ (by decide)
    (fun k => by rcases k with _ | _ | _ | k <;> simp [Receiver.init])
    (fun k => by rcases k with _ | _ | k <;> simp [Receiver.init])

/-! ## The `-S` loop -/

end Rtl433
