import ExportSchema.Encoding.Legacy
import ExportSchema.Proofs.Encoding.Utf8

/-!
# Decoding with a guess at the encoding

Bytes of unknown encoding are read as UTF-8 where they are UTF-8, and no guess is asked for. Other
bytes go to the encoding that a detector names. The detector is an arbitrary function here, and so
are the encodings: where its answer names none, the broken sequences of UTF-8 are replaced. An
answer with a NUL or with half of a surrogate pair is refused, and nothing is decoded.

* `NamesNone`: the answers of a detector that name no encoding.
* `Replaced`: the text of bytes with the replacement character for each sequence that breaks off.

Results:
* `textFrom_half`: what is said of a name with half of a surrogate pair.
* `key_eq_ok_iff`: an encoding is looked up by the names that are texts without NULs.
* `decodeWith_encode`: a text is read back, whatever the detector says.
* `decodeWith_namesNone`: other bytes have their broken sequences replaced.
* `decodeWith_eq_error_iff`: nothing is decoded where such a name is refused.
* `decoding_exact`: decoding is exact on UTF-8, and replaces what is broken.
* `odd_names_refused`: an answer with a NUL or with half of a surrogate pair stops the decoding.
-/

namespace ExportSchema

/-! ## Names -/

namespace EncodingName

theorem textFrom_ofText (place : Nat) (t : Text) : textFrom place (ofText t) = .ok t := by
  induction t generalizing place with
  | nil => rfl
  | cons c t ih =>
    rw [ofText_cons, textFrom, ih]
    rfl

/-- A name is a text, or a text up to the first half of a surrogate pair. -/
theorem eq_ofText_or_half (name : EncodingName) :
    (∃ t, name = ofText t) ∨ ∃ t half rest, name = ofText t ++ .half half :: rest := by
  induction name with
  | nil => exact .inl ⟨[], rfl⟩
  | cons u name ih =>
    cases u with
    | half half => exact .inr ⟨[], half, name, rfl⟩
    | char c =>
      obtain ⟨t, rfl⟩ | ⟨t, half, rest, rfl⟩ := ih
      · exact .inl ⟨c :: t, rfl⟩
      · exact .inr ⟨c :: t, half, rest, rfl⟩

/-- **What is said of a name with half of a surrogate pair**: the place of the first one, and how
many stand behind it. -/
theorem textFrom_half (place : Nat) (t : Text) (half : Fin 0x800) (rest : EncodingName) :
    textFrom place (ofText t ++ .half half :: rest) =
      .error (.halves (place + t.length) half (rest.takeWhile CodePoint.isHalf).length) := by
  induction t generalizing place with
  | nil => rfl
  | cons c t ih =>
    rw [ofText_cons, List.cons_append, textFrom, ih, List.length_cons, Nat.add_assoc,
      Nat.add_comm 1]
    rfl

theorem textFrom_eq_ok_iff (place : Nat) {name : EncodingName} {t : Text} :
    textFrom place name = .ok t ↔ name = ofText t := by
  refine ⟨fun h => ?_, fun h => h ▸ textFrom_ofText place t⟩
  obtain ⟨t', rfl⟩ | ⟨t', half, rest, rfl⟩ := eq_ofText_or_half name
  · rw [textFrom_ofText] at h
    rw [Except.ok.inj h]
  · rw [textFrom_half] at h
    cases h

/-- **An encoding is looked up** by the names that are texts without NULs. -/
theorem key_eq_ok_iff {name : EncodingName} {t : Text} :
    name.key = .ok t ↔ name = ofText t ∧ '\x00' ∉ t := by
  rw [← textFrom_eq_ok_iff 0, key]
  cases textFrom 0 name with
  | error e => exact iff_of_false nofun fun h => nomatch h.1
  | ok t' =>
    simp only [List.contains_iff_mem, Except.ok.injEq]
    split
    · rename_i hnull
      exact iff_of_false nofun fun ⟨heq, hfree⟩ => hfree (heq ▸ hnull)
    · rename_i hfree
      exact ⟨fun h => ⟨Except.ok.inj h, Except.ok.inj h ▸ hfree⟩, fun h => congrArg _ h.1⟩

end EncodingName

/-! ## Decoding -/

variable {codecs : Codecs} {detected : Option EncodingName} {bs : Bytes}

/-- The answer of a detector is a name that no encoding has, or no name. -/
def NamesNone (codecs : Codecs) (detected : Option EncodingName) : Prop :=
  ∀ name ∈ detected, ∃ t, name = EncodingName.ofText t ∧ '\x00' ∉ t ∧ codecs t = none

/-- The text is that of the bytes, with the replacement character for each sequence that breaks
off. -/
def Utf8.Replaced (bs : Bytes) (t : Text) : Prop :=
  ∃ out, Decoding bs out ∧ t = out.map (·.getD replacementChar)

theorem Utf8.replaced_replacing (bs : Bytes) : Replaced bs (replacing bs) :=
  ⟨decode bs, decode_eq_iff.mp rfl, rfl⟩

/-- A text is read back, whatever the detector says. -/
theorem decodeWith_encode (codecs : Codecs) (detected : Option EncodingName) (t : Text) :
    decodeWith codecs detected (Utf8.encode t) = .ok t := by
  unfold decodeWith
  rw [Utf8.strict?_eq_some_iff.mpr rfl]

/-- Where no encoding is named, the broken sequences are replaced. -/
theorem decodeWith_namesNone (hbs : ∀ t, Utf8.encode t ≠ bs) (h : NamesNone codecs detected) :
    decodeWith codecs detected bs = .ok (Utf8.replacing bs) := by
  unfold decodeWith
  rw [Utf8.strict?_eq_none_iff.mpr hbs]
  cases detected with
  | none => rfl
  | some name =>
    obtain ⟨t, rfl, hfree, hcodecs⟩ := h name rfl
    cases t with
    | nil => rfl
    | cons c t =>
      have hkey : EncodingName.key (.char c :: EncodingName.ofText t) = .ok (c :: t) :=
        EncodingName.key_eq_ok_iff.mpr ⟨rfl, hfree⟩
      simp only [EncodingName.ofText_cons, hkey, Except.map, hcodecs, Option.getD_none]

/-- **Nothing is decoded** just where the bytes are no UTF-8 and the answer of the detector is
refused. -/
theorem decodeWith_eq_error_iff {e : NameError} : decodeWith codecs detected bs = .error e ↔
    (∀ t, Utf8.encode t ≠ bs) ∧ ∃ name ∈ detected, name.key = .error e := by
  rw [← Utf8.strict?_eq_none_iff]
  unfold decodeWith
  cases Utf8.strict? bs with
  | some t => exact iff_of_false nofun fun h => nomatch h.1
  | none =>
    match detected with
    | none | some [] => exact iff_of_false nofun (by rintro ⟨-, name, ⟨⟩, ⟨⟩⟩)
    | some (u :: name) =>
      simp only [true_and, Option.mem_some, exists_eq_left']
      cases EncodingName.key (u :: name) with
      | error e' => rw [Except.map, Except.error.injEq]
      | ok key => exact iff_of_false nofun nofun

/-- **Decoding is exact on UTF-8, and replaces what is broken.** A text comes back from its bytes,
whatever the detector answers. Other bytes, where the detector names no encoding, become the text
with the replacement character for each sequence that breaks off, which has one such character at
least; and a text in front of them stays in front. -/
theorem decoding_exact (codecs : Codecs) (detect : Bytes → Option EncodingName) :
    (∀ s, decodeWith codecs (detect (Utf8.encode s)) (Utf8.encode s) = .ok s) ∧
    ∀ b, (∀ s, Utf8.encode s ≠ b) → NamesNone codecs (detect b) →
      ∃ t, Utf8.Replaced b t ∧ replacementChar ∈ t ∧ decodeWith codecs (detect b) b = .ok t ∧
        ∀ s, NamesNone codecs (detect (Utf8.encode s ++ b)) →
          decodeWith codecs (detect (Utf8.encode s ++ b)) (Utf8.encode s ++ b) = .ok (s ++ t) := by
  refine ⟨fun s => decodeWith_encode codecs _ s, fun b hb hnone => ?_⟩
  refine ⟨Utf8.replacing b, Utf8.replaced_replacing b, Utf8.replacementChar_mem_replacing hb,
    decodeWith_namesNone hb hnone, fun s hs => ?_⟩
  rw [decodeWith_namesNone (Utf8.encode_append_ne hb s) hs, Utf8.replacing_encode_append]

/-- For a detector that always answers `no-such-codec`, the bytes `F0 9F` in front of `é` and a
stray `BF` behind it give one mark each, and a text in front of them stays. -/
theorem decoding_of_broken :
    let detect : Bytes → Option EncodingName := fun _ =>
      some (EncodingName.ofText "no-such-codec".toList)
    let b : Bytes := [0xF0, 0x9F, 0xC3, 0xA9, 0xBF]
    (∀ s, Utf8.encode s ≠ b) ∧ NamesNone Encoding.codecs (detect b) ∧
      Utf8.Replaced b "\uFFFDé\uFFFD".toList ∧
      decodeWith Encoding.codecs (detect (Utf8.encode ['a', 'ß'] ++ b))
          (Utf8.encode ['a', 'ß'] ++ b) = .ok "aß\uFFFDé\uFFFD".toList := by
  intro detect b
  have hb : ∀ s, Utf8.encode s ≠ b := Utf8.strict?_eq_none_iff.mp (by decide)
  have hnone : ∀ bs, NamesNone Encoding.codecs (detect bs) := by
    rintro bs name hname
    cases hname
    exact ⟨_, rfl, by decide, by decide⟩
  obtain ⟨t, hreplaced, -, hdecode, hbehind⟩ :=
    (decoding_exact Encoding.codecs detect).2 b hb (hnone b)
  have ht : t = "\uFFFDé\uFFFD".toList := by
    have hrun : decodeWith Encoding.codecs (detect b) b = .ok "\uFFFDé\uFFFD".toList := by
      decide +kernel
    exact Except.ok.inj (hdecode.symm.trans hrun)
  subst ht
  exact ⟨hb, hnone b, hreplaced, hbehind ['a', 'ß'] (hnone (Utf8.encode ['a', 'ß'] ++ b))⟩

/-- The answer `a`, NUL, `b` names no encoding. Nor does `utf` with the first half of a surrogate pair
behind it, which is no text. With either the byte `FF`, which is no UTF-8, is refused and not
replaced. -/
theorem odd_names_refused :
    let key : Text := ['a', '\x00', 'b']
    let null := EncodingName.ofText key
    let half := EncodingName.ofText "utf".toList ++ [.half 0]
    (∀ s, Utf8.encode s ≠ [0xFF]) ∧ Utf8.Replaced [0xFF] [replacementChar] ∧
      (Encoding.codecs key = none ∧ decodeBytes (some null) [0xFF] = .error .null) ∧
      (∀ t, EncodingName.ofText t ≠ half) ∧
      decodeBytes (some half) [0xFF] = .error (.halves 3 0 0) := by
  intro key null half
  have hhalf : ∀ t, EncodingName.ofText t ≠ half := by
    intro t ht
    have hmem : CodePoint.half 0 ∈ EncodingName.ofText t := by
      rw [ht]
      exact List.mem_append_right _ List.mem_cons_self
    obtain ⟨c, -, hc⟩ := List.mem_map.mp hmem
    cases hc
  have hbytes : ∀ s, Utf8.encode s ≠ [0xFF] := Utf8.strict?_eq_none_iff.mp (by decide)
  have hrefused : ∀ name e, EncodingName.key name = .error e →
      decodeBytes (some name) [0xFF] = .error e := fun name e he =>
    decodeWith_eq_error_iff.mpr ⟨hbytes, name, rfl, he⟩
  exact ⟨hbytes, Utf8.replaced_replacing [0xFF], ⟨by decide, hrefused _ _ (by decide)⟩, hhalf,
    hrefused half _ (by decide)⟩

end ExportSchema
