import ExportSchema.Encoding.Utf8
import Mathlib.Data.List.Basic
import Mathlib.Data.Nat.Find

/-!
# UTF-8 is read back, and broken bytes are marked one by one

The decoder is a machine over bytes that knows no character until it is complete. Here it is held
against the bytes of the characters themselves. Where a whole character stands it gives this
character. Elsewhere it gives one mark for the longest start of a character, or for a single byte
that starts none, and goes on behind it.

* `State.ranges`, `Fits`: the bytes that a state waits for.
* `Spelled`: the bytes of a character, by the first byte and the ranges that it asks for.
* `IsStart`, `BreaksOff`: the starts of characters, and a sequence that breaks off.
* `Decoding`: the characters of bytes, with a mark for each sequence that breaks off.

Results:
* `spelled_iff`: the ranges of the decoder are those of the characters.
* `decode_eq_iff`: the decoder gives just the characters and marks of `Decoding`.
* `decode_encode_append`: a text in front of other bytes is read as it is.
* `strict?_eq_some_iff`: the strict reader accepts exactly the bytes of texts.
* `replacing_encode_append`, `replacementChar_mem_replacing`: what replacing the broken sequences
  gives.
-/

namespace ExportSchema.Utf8

/-! ## Numbers and bytes -/

theorem toNat_charOfNat {n : Nat} (h : n.isValidChar) : (Char.ofNat n).toNat = n :=
  calc (Char.ofNat n).toNat = (Char.ofNatAux n h).toNat := congrArg Char.toNat (dif_pos h)
    _ = n := rfl

theorem toNat_ofNat8 {n : Nat} (h : n < 256) : (UInt8.ofNat n).toNat = n := by
  simp [Nat.mod_eq_of_lt h]

theorem ofNat8_eq {n : Nat} {b : UInt8} (h : n = b.toNat) : UInt8.ofNat n = b := by
  rw [h, UInt8.ofNat_toNat]

/-- The bytes of a code point, as digits to the base 64 with marks. -/
theorem utf8EncodeChar_ofNat {v : Nat} (h : v.isValidChar) :
    String.utf8EncodeChar (Char.ofNat v) =
      if v ≤ 127 then [UInt8.ofNat v]
      else if v ≤ 2047 then [UInt8.ofNat (v / 64 % 32 + 192), UInt8.ofNat (v % 64 + 128)]
      else if v ≤ 65535 then
        [UInt8.ofNat (v / 4096 % 16 + 224), UInt8.ofNat (v / 64 % 64 + 128),
          UInt8.ofNat (v % 64 + 128)]
      else
        [UInt8.ofNat (v / 262144 % 8 + 240), UInt8.ofNat (v / 4096 % 64 + 128),
          UInt8.ofNat (v / 64 % 64 + 128), UInt8.ofNat (v % 64 + 128)] := by
  unfold String.utf8EncodeChar
  simp only [Char.toNat_val, toNat_charOfNat h]

/-! ## The ranges of a state -/

/-- The ranges of the bytes that a state waits for, in order. -/
def State.ranges : State → List (Nat × Nat)
  | .start => []
  | .inside low high left _ => (low, high) :: List.replicate left (0x80, 0xBF)

/-- The bytes lie in the first of the ranges, one in each. -/
def Fits : Bytes → List (Nat × Nat) → Prop
  | [], _ => True
  | _ :: _, [] => False
  | b :: w, r :: rs => r.1 ≤ b.toNat ∧ b.toNat ≤ r.2 ∧ Fits w rs

/-- Bytes that fit can be completed. -/
theorem exists_fits_append {w : Bytes} {rs : List (Nat × Nat)} (hw : Fits w rs)
    (hrs : ∀ r ∈ rs, r.1 ≤ r.2 ∧ r.2 < 256) :
    ∃ more, Fits (w ++ more) rs ∧ (w ++ more).length = rs.length := by
  induction rs generalizing w with
  | nil =>
    cases w with
    | nil => exact ⟨[], trivial, rfl⟩
    | cons b w => exact hw.elim
  | cons r rs ih =>
    obtain ⟨hr, hrs⟩ := List.forall_mem_cons.mp hrs
    cases w with
    | nil =>
      obtain ⟨more, hmore, hlen⟩ := ih (w := []) trivial hrs
      have hb : (UInt8.ofNat r.1).toNat = r.1 := toNat_ofNat8 (by omega)
      refine ⟨UInt8.ofNat r.1 :: more, ⟨?_, ?_, hmore⟩, congrArg (· + 1) hlen⟩
      · rw [hb]
      · rw [hb]
        exact hr.1
    | cons b w =>
      obtain ⟨more, hmore, hlen⟩ := ih hw.2.2 hrs
      exact ⟨more, ⟨hw.1, hw.2.1, hmore⟩, congrArg (· + 1) hlen⟩

theorem Fits.of_prefix {u w : Bytes} {rs : List (Nat × Nat)} (hw : Fits w rs) (h : u <+: w) :
    Fits u rs := by
  induction u generalizing w rs with
  | nil => trivial
  | cons b u ih =>
    cases w with
    | nil => cases List.prefix_nil.mp h
    | cons c w =>
      obtain ⟨rfl, huw⟩ := List.cons_prefix_cons.mp h
      cases rs with
      | nil => exact hw.elim
      | cons r rs => exact ⟨hw.1, hw.2.1, ih hw.2.2 huw⟩

theorem Fits.length_le {w : Bytes} {rs : List (Nat × Nat)} (hw : Fits w rs) :
    w.length ≤ rs.length := by
  induction w generalizing rs with
  | nil => exact Nat.zero_le _
  | cons b w ih =>
    cases rs with
    | nil => exact hw.elim
    | cons r rs => exact Nat.succ_le_succ (ih hw.2.2)

/-! ## First bytes -/

theorem lead?_two {b : Nat} (h : 0xC2 ≤ b ∧ b ≤ 0xDF) :
    lead? b = some (.inside 0x80 0xBF 0 (b - 0xC0)) := if_pos h

theorem lead?_three {b : Nat} (h : 0xE0 ≤ b ∧ b ≤ 0xEF) :
    lead? b = some (.inside (if b = 0xE0 then 0xA0 else 0x80) (if b = 0xED then 0x9F else 0xBF) 1
      (b - 0xE0)) := by
  rw [lead?, if_neg (by omega)]
  by_cases hlow : b = 0xE0
  · subst hlow
    rfl
  · by_cases hhigh : b = 0xED
    · subst hhigh
      rfl
    · rw [if_neg hlow, if_neg hhigh, if_neg hlow, if_neg hhigh, if_pos (by omega)]

theorem lead?_four {b : Nat} (h : 0xF0 ≤ b ∧ b ≤ 0xF4) :
    lead? b = some (.inside (if b = 0xF0 then 0x90 else 0x80) (if b = 0xF4 then 0x8F else 0xBF) 2
      (b - 0xF0)) := by
  rw [lead?, if_neg (by omega), if_neg (by omega), if_neg (by omega), if_neg (by omega)]
  by_cases hlow : b = 0xF0
  · subst hlow
    rfl
  · by_cases hhigh : b = 0xF4
    · subst hhigh
      rfl
    · rw [if_neg hlow, if_pos (by omega), if_neg hlow, if_neg hhigh]

theorem lead?_ranges {b : Nat} {s : State} (h : lead? b = some s) :
    (0xC2 ≤ b ∧ b ≤ 0xDF) ∨ (0xE0 ≤ b ∧ b ≤ 0xEF) ∨ 0xF0 ≤ b ∧ b ≤ 0xF4 := by
  unfold lead? at h
  split_ifs at h <;> omega

theorem eq_inside_of_lead? {b : Nat} {s : State} (h : lead? b = some s) :
    ∃ low high left value, s = .inside low high left value := by
  unfold lead? at h
  split_ifs at h <;> cases h <;> exact ⟨_, _, _, _, rfl⟩

theorem ranges_of_lead? {b : Nat} {s : State} (h : lead? b = some s) :
    ∀ r ∈ s.ranges, r.1 ≤ r.2 ∧ r.2 < 256 := by
  have htail : ∀ left, ∀ r ∈ List.replicate left (0x80, 0xBF), r.1 ≤ r.2 ∧ r.2 < 256 := by
    intro left r hr
    rw [List.eq_of_mem_replicate hr]
    decide
  unfold lead? at h
  split_ifs at h <;> cases h <;>
    exact List.forall_mem_cons.mpr ⟨by decide, htail _⟩

/-! ## The bytes of a character -/

/-- The number that a continuation byte makes, after `value`. -/
def extendBy (value : Nat) (b : UInt8) : Nat := b.toNat - 0x80 + value * 64

/-- The number that continuation bytes make, after `value`. -/
def extend (value : Nat) (w : Bytes) : Nat := w.foldl extendBy value

/-- The bytes of one character: a short one, or a first byte and the bytes that it asks for. -/
inductive Spelled (c : Char) : Bytes → Prop
  | one {b : UInt8} (hb : b.toNat < 0x80) (hc : c.toNat = b.toNat) : Spelled c [b]
  | more {b : UInt8} {low high left value : Nat} {w : Bytes}
      (hlead : lead? b.toNat = some (.inside low high left value))
      (hw : Fits w (State.inside low high left value).ranges) (hlen : w.length = left + 1)
      (hc : c.toNat = extend value w) : Spelled c (b :: w)

theorem toNat_tail (n : Nat) : (UInt8.ofNat (n % 64 + 128)).toNat = n % 64 + 128 :=
  toNat_ofNat8 (by omega)

/-! ### From a character to its bytes -/

section Encode

variable {c : Char}

theorem spelled_two (h : 127 < c.toNat ∧ c.toNat ≤ 2047) :
    Spelled c [UInt8.ofNat (c.toNat / 64 % 32 + 192), UInt8.ofNat (c.toNat % 64 + 128)] := by
  have hfirst : (UInt8.ofNat (c.toNat / 64 % 32 + 192)).toNat = c.toNat / 64 + 192 := by
    rw [toNat_ofNat8] <;> omega
  refine .more (lead?_two ?_) ?_ rfl ?_
  · omega
  · simp only [State.ranges, Fits, toNat_tail, and_true]
    omega
  · simp only [extend, List.foldl, extendBy, toNat_tail, hfirst]
    omega

/-- The second byte of a character of three bytes is bounded where two would do, and where the
surrogates are. -/
theorem spelled_three (h : 2047 < c.toNat ∧ c.toNat ≤ 65535) :
    Spelled c [UInt8.ofNat (c.toNat / 4096 % 16 + 224), UInt8.ofNat (c.toNat / 64 % 64 + 128),
      UInt8.ofNat (c.toNat % 64 + 128)] := by
  have hvalid : c.toNat < 0xD800 ∨ 0xDFFF < c.toNat ∧ c.toNat < 0x110000 := c.valid
  have hfirst : (UInt8.ofNat (c.toNat / 4096 % 16 + 224)).toNat = c.toNat / 4096 + 224 := by
    rw [toNat_ofNat8] <;> omega
  refine .more (lead?_three ?_) ?_ rfl ?_
  · omega
  · simp only [State.ranges, Fits, toNat_tail, List.replicate, and_true, hfirst]
    split <;> split <;> omega
  · simp only [extend, List.foldl, extendBy, toNat_tail, hfirst]
    omega

/-- The second byte of a character of four bytes is bounded where three would do, and behind the last
character. -/
theorem spelled_four (h : 65535 < c.toNat) :
    Spelled c [UInt8.ofNat (c.toNat / 262144 % 8 + 240), UInt8.ofNat (c.toNat / 4096 % 64 + 128),
      UInt8.ofNat (c.toNat / 64 % 64 + 128), UInt8.ofNat (c.toNat % 64 + 128)] := by
  have hvalid : c.toNat < 0xD800 ∨ 0xDFFF < c.toNat ∧ c.toNat < 0x110000 := c.valid
  have hfirst : (UInt8.ofNat (c.toNat / 262144 % 8 + 240)).toNat = c.toNat / 262144 + 240 := by
    rw [toNat_ofNat8] <;> omega
  refine .more (lead?_four ?_) ?_ rfl ?_
  · omega
  · simp only [State.ranges, Fits, toNat_tail, List.replicate, and_true, hfirst]
    split <;> split <;> omega
  · simp only [extend, List.foldl, extendBy, toNat_tail, hfirst]
    omega

end Encode

theorem spelled_utf8EncodeChar (c : Char) : Spelled c (String.utf8EncodeChar c) := by
  unfold String.utf8EncodeChar
  simp only [Char.toNat_val]
  split
  · have hbyte : (UInt8.ofNat c.toNat).toNat = c.toNat := toNat_ofNat8 (by omega)
    exact .one (by omega) hbyte.symm
  · split
    · exact spelled_two (by omega)
    · split
      · exact spelled_three (by omega)
      · exact spelled_four (by omega)

/-! ### From bytes to their character -/

theorem exists_char_of_lt {b : UInt8} (h : b.toNat < 0x80) :
    ∃ c, c.toNat = b.toNat ∧ String.utf8EncodeChar c = [b] := by
  have hvalid : b.toNat.isValidChar := Or.inl (by omega)
  refine ⟨Char.ofNat b.toNat, toNat_charOfNat hvalid, ?_⟩
  rw [utf8EncodeChar_ofNat hvalid, if_pos (by omega), UInt8.ofNat_toNat]

section Decode

variable {b x y z : UInt8}

theorem exists_char_two (h : 0xC2 ≤ b.toNat ∧ b.toNat ≤ 0xDF)
    (hx : 0x80 ≤ x.toNat ∧ x.toNat ≤ 0xBF) :
    ∃ c, c.toNat = extend (b.toNat - 0xC0) [x] ∧ String.utf8EncodeChar c = [b, x] := by
  generalize hv : extend _ [x] = v
  simp only [extend, List.foldl, extendBy] at hv
  have hvalid : v.isValidChar := Or.inl (by omega)
  refine ⟨Char.ofNat v, toNat_charOfNat hvalid, ?_⟩
  rw [utf8EncodeChar_ofNat hvalid, if_neg (by omega), if_pos (by omega),
    ofNat8_eq (b := b) (by omega), ofNat8_eq (b := x) (by omega)]

theorem exists_char_three (h : 0xE0 ≤ b.toNat ∧ b.toNat ≤ 0xEF)
    (hx : (if b.toNat = 0xE0 then 0xA0 else 0x80) ≤ x.toNat ∧
      x.toNat ≤ if b.toNat = 0xED then 0x9F else 0xBF)
    (hy : 0x80 ≤ y.toNat ∧ y.toNat ≤ 0xBF) :
    ∃ c, c.toNat = extend (b.toNat - 0xE0) [x, y] ∧ String.utf8EncodeChar c = [b, x, y] := by
  generalize hv : extend _ [x, y] = v
  simp only [extend, List.foldl, extendBy] at hv
  have hx' : 128 ≤ x.toNat ∧ x.toNat ≤ 191 := by split at hx <;> split at hx <;> omega
  have hlow : v / 64 = (b.toNat - 224) * 64 + (x.toNat - 128) := by omega
  have hhigh : v / 4096 = b.toNat - 224 := by omega
  have hlong : 2047 < v := by split at hx <;> omega
  have hvalid : v.isValidChar := by
    unfold Nat.isValidChar
    split at hx <;> split at hx <;> omega
  refine ⟨Char.ofNat v, toNat_charOfNat hvalid, ?_⟩
  rw [utf8EncodeChar_ofNat hvalid, if_neg (by omega), if_neg (by omega), if_pos (by omega),
    ofNat8_eq (b := b) (by omega), ofNat8_eq (b := x) (by omega), ofNat8_eq (b := y) (by omega)]

theorem exists_char_four (h : 0xF0 ≤ b.toNat ∧ b.toNat ≤ 0xF4)
    (hx : (if b.toNat = 0xF0 then 0x90 else 0x80) ≤ x.toNat ∧
      x.toNat ≤ if b.toNat = 0xF4 then 0x8F else 0xBF)
    (hy : 0x80 ≤ y.toNat ∧ y.toNat ≤ 0xBF) (hz : 0x80 ≤ z.toNat ∧ z.toNat ≤ 0xBF) :
    ∃ c, c.toNat = extend (b.toNat - 0xF0) [x, y, z] ∧
      String.utf8EncodeChar c = [b, x, y, z] := by
  generalize hv : extend _ [x, y, z] = v
  simp only [extend, List.foldl, extendBy] at hv
  have hx' : 128 ≤ x.toNat ∧ x.toNat ≤ 191 := by split at hx <;> split at hx <;> omega
  have hlow : v / 64 = ((b.toNat - 240) * 64 + (x.toNat - 128)) * 64 + (y.toNat - 128) := by omega
  have hmid : v / 4096 = (b.toNat - 240) * 64 + (x.toNat - 128) := by omega
  have hhigh : v / 262144 = b.toNat - 240 := by omega
  have hlong : 65535 < v := by split at hx <;> omega
  have hvalid : v.isValidChar := by
    unfold Nat.isValidChar
    split at hx <;> split at hx <;> omega
  refine ⟨Char.ofNat v, toNat_charOfNat hvalid, ?_⟩
  rw [utf8EncodeChar_ofNat hvalid, if_neg (by omega), if_neg (by omega), if_neg (by omega),
    ofNat8_eq (b := b) (by omega), ofNat8_eq (b := x) (by omega), ofNat8_eq (b := y) (by omega),
    ofNat8_eq (b := z) (by omega)]

end Decode

/-- A first byte and bytes in its ranges are the bytes of a character. -/
theorem exists_char_of_fits {b : UInt8} {low high left value : Nat} {w : Bytes}
    (hlead : lead? b.toNat = some (.inside low high left value))
    (hw : Fits w (State.inside low high left value).ranges) (hlen : w.length = left + 1) :
    ∃ c, c.toNat = extend value w ∧ String.utf8EncodeChar c = b :: w := by
  rcases lead?_ranges hlead with h | h | h
  · rw [lead?_two h] at hlead
    cases hlead
    obtain ⟨x, rfl⟩ := List.length_eq_one_iff.mp hlen
    exact exists_char_two h ⟨hw.1, hw.2.1⟩
  · rw [lead?_three h] at hlead
    cases hlead
    obtain ⟨x, y, rfl⟩ := List.length_eq_two.mp hlen
    exact exists_char_three h ⟨hw.1, hw.2.1⟩ ⟨hw.2.2.1, hw.2.2.2.1⟩
  · rw [lead?_four h] at hlead
    cases hlead
    obtain ⟨x, y, z, rfl⟩ := List.length_eq_three.mp hlen
    exact exists_char_four h ⟨hw.1, hw.2.1⟩ ⟨hw.2.2.1, hw.2.2.2.1⟩
      ⟨hw.2.2.2.2.1, hw.2.2.2.2.2.1⟩

/-- **The ranges of the decoder are those of the characters.** -/
theorem spelled_iff {c : Char} {u : Bytes} : Spelled c u ↔ u = String.utf8EncodeChar c := by
  refine ⟨fun h => ?_, fun h => h ▸ spelled_utf8EncodeChar c⟩
  cases h with
  | one hb hc =>
    obtain ⟨c', hc', henc⟩ := exists_char_of_lt hb
    rw [← henc, Char.toNat_inj.mp (hc'.trans hc.symm)]
  | more hlead hw hlen hc =>
    obtain ⟨c', hc', henc⟩ := exists_char_of_fits hlead hw hlen
    rw [← henc, Char.toNat_inj.mp (hc'.trans hc.symm)]

/-! ## The decoder -/

section

variable {b : UInt8} {low high left value : Nat} {w bs : Bytes} {s : State}

theorem decodeFrom_lead (h : lead? b.toNat = some s) :
    decodeFrom .start (b :: bs) = decodeFrom s bs := by
  have hb : ¬ b.toNat < 0x80 := by
    have := lead?_ranges h
    omega
  simp only [decodeFrom, step, startByte, if_neg hb, h, List.nil_append]

theorem decodeFrom_next (h : low ≤ b.toNat ∧ b.toNat ≤ high) :
    decodeFrom (.inside low high (left + 1) value) (b :: bs) =
      decodeFrom (.inside 0x80 0xBF left (extendBy value b)) bs := by
  simp only [decodeFrom, step, if_pos h, List.nil_append, extendBy, Nat.add_comm]

theorem decodeFrom_last (h : low ≤ b.toNat ∧ b.toNat ≤ high) :
    decodeFrom (.inside low high 0 value) (b :: bs) =
      some (Char.ofNat (extendBy value b)) :: decodeFrom .start bs := by
  simp only [decodeFrom, step, if_pos h, List.singleton_append, extendBy, Nat.add_comm]

theorem decodeFrom_break (h : ∀ b, bs.head? = some b → ¬ (low ≤ b.toNat ∧ b.toNat ≤ high)) :
    decodeFrom (.inside low high left value) bs = none :: decodeFrom .start bs := by
  cases bs with
  | nil => rfl
  | cons b bs =>
    simp only [decodeFrom, step, if_neg (h b rfl), List.cons_append]

theorem decodeFrom_fits (hw : Fits w (State.inside low high left value).ranges)
    (hlen : w.length = left + 1) :
    decodeFrom (.inside low high left value) (w ++ bs) =
      some (Char.ofNat (extend value w)) :: decodeFrom .start bs := by
  induction left generalizing low high value w with
  | zero =>
    obtain ⟨b, rfl⟩ := List.length_eq_one_iff.mp hlen
    exact decodeFrom_last ⟨hw.1, hw.2.1⟩
  | succ left ih =>
    cases w with
    | nil => cases hlen
    | cons b w =>
      rw [List.cons_append, decodeFrom_next ⟨hw.1, hw.2.1⟩]
      exact ih hw.2.2 (Nat.succ.inj hlen)

theorem decodeFrom_broken (hw : Fits w (State.inside low high left value).ranges)
    (hlen : w.length ≤ left)
    (hnext : ∀ b, bs.head? = some b →
      ¬ Fits (w ++ [b]) (State.inside low high left value).ranges) :
    decodeFrom (.inside low high left value) (w ++ bs) = none :: decodeFrom .start bs := by
  induction w generalizing low high left value with
  | nil => exact decodeFrom_break fun b hb hin => hnext b hb ⟨hin.1, hin.2, trivial⟩
  | cons c w ih =>
    cases left with
    | zero => exact absurd hlen (Nat.not_succ_le_zero _)
    | succ left =>
      rw [List.cons_append, decodeFrom_next ⟨hw.1, hw.2.1⟩]
      exact ih hw.2.2 (Nat.le_of_succ_le_succ hlen) fun b hb hfits =>
        hnext b hb ⟨hw.1, hw.2.1, hfits⟩

end

/-- The bytes of a character come out as this character. -/
theorem decodeFrom_utf8EncodeChar (c : Char) (bs : Bytes) :
    decodeFrom .start (String.utf8EncodeChar c ++ bs) = some c :: decodeFrom .start bs := by
  have hc := spelled_utf8EncodeChar c
  revert hc
  generalize String.utf8EncodeChar c = u
  rintro (⟨hb, hc⟩ | ⟨hlead, hw, hlen, hc⟩)
  · simp only [List.singleton_append, decodeFrom, step, startByte, if_pos hb]
    rw [← hc, Char.ofNat_toNat]
  · rw [List.cons_append, decodeFrom_lead hlead, decodeFrom_fits hw hlen, ← hc, Char.ofNat_toNat]

/-! ## Broken sequences -/

/-- The bytes are the first ones of a character. -/
def IsStart (u : Bytes) : Prop := ∃ c : Char, u <+: String.utf8EncodeChar c

/-- The sequence `u` breaks off in front of `bs`: no character is there, and `u` is the longest start
of a character that is there, or a single byte that starts none. -/
structure BreaksOff (u bs : Bytes) : Prop where
  none_whole : ∀ c : Char, ¬ String.utf8EncodeChar c <+: u ++ bs
  start : IsStart u ∨ u.length = 1
  longest : ∀ v, v <+: u ++ bs → IsStart v → v.length ≤ u.length
  ne : u ≠ []

/-- The characters of bytes, with a mark for each sequence that breaks off. -/
inductive Decoding : Bytes → List (Option Char) → Prop
  | nil : Decoding [] []
  | char (c : Char) {bs : Bytes} {out : List (Option Char)} (h : Decoding bs out) :
      Decoding (String.utf8EncodeChar c ++ bs) (some c :: out)
  | broken {u bs : Bytes} {out : List (Option Char)} (hu : BreaksOff u bs) (h : Decoding bs out) :
      Decoding (u ++ bs) (none :: out)

/-- After a first byte there may follow the bytes in its ranges. -/
theorem isStart_cons_iff {b : UInt8} {low high left value : Nat}
    (h : lead? b.toNat = some (.inside low high left value)) {w : Bytes} :
    IsStart (b :: w) ↔ Fits w (State.inside low high left value).ranges := by
  constructor
  · rintro ⟨c, hc⟩
    generalize hu : String.utf8EncodeChar c = u at hc
    cases spelled_iff.mpr hu.symm with
    | one hb =>
      obtain ⟨rfl, hw⟩ := List.cons_prefix_cons.mp hc
      rw [List.prefix_nil.mp hw]
      trivial
    | more hlead hfits =>
      obtain ⟨rfl, hw⟩ := List.cons_prefix_cons.mp hc
      rw [h] at hlead
      cases hlead
      exact hfits.of_prefix hw
  · intro hw
    obtain ⟨more, hmore, hlen⟩ := exists_fits_append hw (ranges_of_lead? h)
    obtain ⟨c, -, hc⟩ := exists_char_of_fits h hmore (by simpa [State.ranges] using hlen)
    exact ⟨c, more, by rw [hc, List.cons_append]⟩

/-- A byte from 80 on without continuations starts no character. -/
theorem not_isStart_cons {b : UInt8} (hb : ¬ b.toNat < 0x80) (h : lead? b.toNat = none)
    (w : Bytes) : ¬ IsStart (b :: w) := by
  rintro ⟨c, hc⟩
  generalize hu : String.utf8EncodeChar c = u at hc
  cases spelled_iff.mpr hu.symm with
  | one hlow =>
    obtain ⟨rfl, -⟩ := List.cons_prefix_cons.mp hc
    exact hb hlow
  | more hlead =>
    obtain ⟨rfl, -⟩ := List.cons_prefix_cons.mp hc
    rw [h] at hlead
    cases hlead

/-- A sequence that breaks off comes out as one mark, and reading goes on behind it. -/
theorem decodeFrom_breaksOff {u bs : Bytes} (h : BreaksOff u bs) :
    decodeFrom .start (u ++ bs) = none :: decodeFrom .start bs := by
  obtain ⟨b, w, rfl⟩ := List.exists_cons_of_ne_nil h.ne
  have hb : ¬ b.toNat < 0x80 := by
    intro hb
    obtain ⟨c, -, hc⟩ := exists_char_of_lt hb
    exact h.none_whole c ⟨w ++ bs, by rw [hc]; rfl⟩
  have hsingle (hw : ¬ IsStart (b :: w)) : w = [] := by
    simpa using h.start.resolve_left hw
  cases hlead : lead? b.toNat with
  | none =>
    rw [hsingle (not_isStart_cons hb hlead w)]
    simp only [List.singleton_append, decodeFrom, step, startByte, if_neg hb, hlead]
  | some s =>
    obtain ⟨low, high, left, value, rfl⟩ := eq_inside_of_lead? hlead
    have hw : Fits w (State.inside low high left value).ranges := by
      by_cases hstart : IsStart (b :: w)
      · exact (isStart_cons_iff hlead).mp hstart
      · rw [hsingle hstart]
        trivial
    rw [List.cons_append, decodeFrom_lead hlead]
    refine decodeFrom_broken hw (Nat.lt_succ_iff.mp (lt_of_le_of_ne ?_ fun hlen => ?_)) ?_
    · simpa [State.ranges] using hw.length_le
    · -- all bytes that are asked for would make a character
      obtain ⟨c, -, hc⟩ := exists_char_of_fits hlead hw hlen
      exact h.none_whole c ⟨bs, by rw [hc]⟩
    · intro b' hb' hfits
      obtain ⟨bs, rfl⟩ := List.head?_eq_some_iff.mp hb'
      have hlonger := h.longest (b :: (w ++ [b'])) ⟨bs, by simp⟩
        ((isStart_cons_iff hlead).mpr hfits)
      simp only [List.length_cons, List.length_append, List.length_nil] at hlonger
      omega

theorem exists_longest_start (bs : Bytes) :
    ∃ n ≤ bs.length, IsStart (bs.take n) ∧ ∀ v, v <+: bs → IsStart v → v.length ≤ n := by
  classical
  refine ⟨Nat.findGreatest (fun n => IsStart (bs.take n)) bs.length, Nat.findGreatest_le _, ?_,
    fun v hv hstart => ?_⟩
  · exact Nat.findGreatest_spec (P := fun n => IsStart (bs.take n)) (Nat.zero_le _)
      ⟨'a', List.nil_prefix⟩
  · rw [List.prefix_iff_eq_take.mp hv] at hstart
    exact Nat.le_findGreatest (P := fun n => IsStart (bs.take n)) hv.length_le hstart

/-- Any bytes begin with a character, or with a sequence that breaks off. -/
theorem exists_char_or_breaksOff {bs : Bytes} (h : bs ≠ []) :
    (∃ c rest, bs = String.utf8EncodeChar c ++ rest) ∨
      ∃ u rest, bs = u ++ rest ∧ BreaksOff u rest := by
  by_cases hc : ∃ c : Char, String.utf8EncodeChar c <+: bs
  · obtain ⟨c, rest, hrest⟩ := hc
    exact Or.inl ⟨c, rest, hrest.symm⟩
  · obtain ⟨n, hle, hn, hlongest⟩ := exists_longest_start bs
    have hpos : 0 < bs.length := List.length_pos_of_ne_nil h
    -- a byte that starts no character is broken by itself
    have hlen : (bs.take (max 1 n)).length = max 1 n := by
      rw [List.length_take]
      omega
    refine Or.inr ⟨bs.take (max 1 n), bs.drop (max 1 n), (List.take_append_drop ..).symm, ?_⟩
    refine ⟨?none_whole, ?start, ?longest, ?ne⟩
    case none_whole =>
      rw [List.take_append_drop]
      exact not_exists.mp hc
    case start =>
      rcases Nat.eq_zero_or_pos n with hzero | hpos
      · exact Or.inr (by rw [hlen, hzero]; rfl)
      · rw [Nat.max_eq_right hpos]
        exact Or.inl hn
    case longest =>
      rw [List.take_append_drop, hlen]
      exact fun v hv hstart => Nat.le_trans (hlongest v hv hstart) (Nat.le_max_right 1 n)
    case ne =>
      refine List.ne_nil_of_length_pos ?_
      rw [hlen]
      exact Nat.lt_of_lt_of_le Nat.one_pos (Nat.le_max_left 1 n)

/-- Any bytes are characters and sequences that break off, one after the other. -/
theorem exists_decoding (bs : Bytes) : ∃ out, Decoding bs out := by
  induction hn : bs.length using Nat.strong_induction_on generalizing bs with
  | h n ih =>
    by_cases hbs : bs = []
    · exact ⟨[], hbs ▸ .nil⟩
    · rcases exists_char_or_breaksOff hbs with ⟨c, rest, rfl⟩ | ⟨u, rest, rfl, hu⟩
      · have hpos := c.utf8Size_pos
        have hlt : rest.length < n := by
          rw [← hn, List.length_append, String.length_utf8EncodeChar]
          omega
        obtain ⟨out, hout⟩ := ih _ hlt rest rfl
        exact ⟨some c :: out, .char c hout⟩
      · have hpos := List.length_pos_of_ne_nil hu.ne
        have hlt : rest.length < n := by
          rw [← hn, List.length_append]
          omega
        obtain ⟨out, hout⟩ := ih _ hlt rest rfl
        exact ⟨none :: out, .broken hu hout⟩

/-- **The decoder gives just what stands there**: the characters of the bytes, and a mark for each
sequence that breaks off. -/
theorem decode_eq_iff {bs : Bytes} {out : List (Option Char)} :
    decode bs = out ↔ Decoding bs out := by
  have hdecode : ∀ {bs out}, Decoding bs out → decode bs = out := by
    intro bs out h
    induction h with
    | nil => rfl
    | char c h ih => rw [decode, decodeFrom_utf8EncodeChar, ← decode, ih]
    | broken hu h ih => rw [decode, decodeFrom_breaksOff hu, ← decode, ih]
  refine ⟨?_, hdecode⟩
  rintro rfl
  obtain ⟨out, h⟩ := exists_decoding bs
  rwa [hdecode h]

/-! ## Texts -/

/-- A text in front of other bytes is read as it is. -/
theorem decode_encode_append (t : Text) (bs : Bytes) :
    decode (encode t ++ bs) = t.map some ++ decode bs := by
  induction t with
  | nil => rfl
  | cons c t ih =>
    rw [encode, List.flatMap_cons, ← encode, List.append_assoc, decode, decodeFrom_utf8EncodeChar,
      ← decode, ih, List.map_cons, List.cons_append]

theorem decode_encode (t : Text) : decode (encode t) = t.map some := by
  have h := decode_encode_append t []
  rwa [List.append_nil, show decode [] = [] from rfl, List.append_nil] at h

/-- A text comes out where no sequence breaks off. -/
theorem eq_encode_of_decoding {bs : Bytes} {t : Text} (h : Decoding bs (t.map some)) :
    bs = encode t := by
  generalize hout : t.map some = out at h
  induction h generalizing t with
  | nil =>
    rw [List.map_eq_nil_iff.mp hout]
    rfl
  | char c h ih =>
    obtain ⟨c', t, rfl, hc, ht⟩ := List.map_eq_cons_iff.mp hout
    cases hc
    rw [ih ht]
    rfl
  | broken hu h ih =>
    obtain ⟨c', t, rfl, hc, ht⟩ := List.map_eq_cons_iff.mp hout
    cases hc

theorem mapM_id_eq_some_iff {out : List (Option Char)} {t : Text} :
    out.mapM id = some t ↔ out = t.map some := by
  induction out generalizing t with
  | nil => cases t <;> simp
  | cons o out ih =>
    have hcons : (o :: out).mapM id = o.bind fun c => (out.mapM id).map (c :: ·) := by
      rw [List.mapM_cons]
      cases o with
      | none => rfl
      | some c => cases out.mapM id <;> rfl
    rw [hcons]
    cases o with
    | none => cases t <;> simp
    | some c =>
      rw [Option.bind_some, Option.map_eq_some_iff]
      constructor
      · rintro ⟨u, hu, rfl⟩
        rw [List.map_cons, ih.mp hu]
      · intro h
        obtain ⟨d, u, rfl, hd, hu⟩ := List.map_eq_cons_iff.mp h.symm
        cases hd
        exact ⟨u, ih.mpr hu.symm, rfl⟩

/-- **The strict reader accepts exactly the bytes of texts.** -/
theorem strict?_eq_some_iff {bs : Bytes} {t : Text} : strict? bs = some t ↔ encode t = bs := by
  rw [strict?, mapM_id_eq_some_iff]
  constructor
  · intro h
    exact (eq_encode_of_decoding (decode_eq_iff.mp h)).symm
  · rintro rfl
    exact decode_encode t

theorem strict?_eq_none_iff {bs : Bytes} : strict? bs = none ↔ ∀ t, encode t ≠ bs := by
  simp only [Option.eq_none_iff_forall_ne_some, ne_eq, strict?_eq_some_iff]

/-- Bytes that are no text have a sequence that breaks off. -/
theorem none_mem_decode {bs : Bytes} (h : ∀ t, encode t ≠ bs) : none ∈ decode bs := by
  by_contra hnone
  have hsome : ∀ o ∈ decode bs, o.isSome := fun o ho =>
    Option.isSome_iff_ne_none.mpr fun heq => hnone (heq ▸ ho)
  obtain ⟨t, ht⟩ : ∃ t : Text, decode bs = t.map some :=
    ⟨(decode bs).pmap (fun o ho => o.get ho) hsome, by simp [List.map_pmap]⟩
  exact h t (eq_encode_of_decoding (decode_eq_iff.mp ht)).symm

/-- Where bytes are no text, the replacement character stands. -/
theorem replacementChar_mem_replacing {bs : Bytes} (h : ∀ t, encode t ≠ bs) :
    replacementChar ∈ replacing bs :=
  List.mem_map.mpr ⟨none, none_mem_decode h, rfl⟩

theorem replacing_encode_append (t : Text) (bs : Bytes) :
    replacing (encode t ++ bs) = t ++ replacing bs := by
  rw [replacing, decode_encode_append, List.map_append, ← replacing, List.map_map]
  exact congrArg (· ++ _) (List.map_id t)

/-- A text in front of broken bytes does not mend them. -/
theorem encode_append_ne {bs : Bytes} (h : ∀ t, encode t ≠ bs) (s : Text) :
    ∀ t, encode t ≠ encode s ++ bs := by
  intro t ht
  have hmem : none ∈ decode (encode s ++ bs) := by
    rw [decode_encode_append]
    exact List.mem_append_right _ (none_mem_decode h)
  rw [← ht, decode_encode] at hmem
  obtain ⟨c, -, hc⟩ := List.mem_map.mp hmem
  cases hc

end ExportSchema.Utf8
