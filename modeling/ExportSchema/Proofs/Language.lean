import ExportSchema.Language
import ExportSchema.Proofs.Text.Split
import Mathlib.Data.List.DropRight

/-!
# The language of a file

A file is a module by its extension, in whatever case it is written; its grammar is chosen by the
ending of its name as it is written. Points in directories, at the start of the name and inside it
do no harm: a name that has an extension ends in nothing else with one point. Capitals do: a module
`A.TSX` is read without element literals.

Results:
* `extension_eq_append`: an extension is the end of its path, from the last point on.
* `endsWith_point_iff`: the ending with one point of a path that has an extension is the extension.
* `grammarOf_eq_tsx_iff`: the grammar is chosen by the extension as it is written.
* `grammar_agrees_iff`: when extension in lower case and grammar say the same.
-/

namespace ExportSchema.Path

variable {path : Text}

/-! ## The extension of a path -/

/-- A text that holds a point is cut at the last one. -/
theorem exists_of_mem_point {t : Text} (h : '.' ∈ t) :
    ∃ stem, t = stem ++ '.' :: t.rtakeWhile (· ≠ '.') := by
  have hne : t.rdropWhile (· ≠ '.') ≠ [] := fun hnil => by
    have hall := List.rdropWhile_eq_nil_iff.mp hnil '.' h
    simp at hall
  have hlast := List.rdropWhile_last_not (· ≠ '.') t hne
  rw [decide_eq_true_eq, not_not] at hlast
  have hfront : t.rdropWhile (· ≠ '.') = (t.rdropWhile (· ≠ '.')).dropLast ++ ['.'] :=
    (List.dropLast_append_getLast hne).symm.trans (by rw [hlast])
  refine ⟨(t.rdropWhile (· ≠ '.')).dropLast, ?_⟩
  calc t = t.rdropWhile (· ≠ '.') ++ t.rtakeWhile (· ≠ '.') :=
        (List.rdropWhile_append_rtakeWhile ..).symm
    _ = ((t.rdropWhile (· ≠ '.')).dropLast ++ ['.']) ++ t.rtakeWhile (· ≠ '.') :=
        congrArg (· ++ t.rtakeWhile (· ≠ '.')) hfront
    _ = _ := List.append_assoc ..

/-- **An extension is the end of its path**, from the last point on. -/
theorem extension_eq_append (h : extension path ≠ []) :
    ∃ stem w, path = stem ++ '.' :: w ∧ extension path = '.' :: w ∧ '.' ∉ w := by
  unfold extension at h ⊢
  simp only at h ⊢
  have hsuffix : (fileName path).dropWhile (· = '.') <:+ path :=
    (List.dropWhile_suffix _).trans (List.rtakeWhile_suffix ..)
  generalize (fileName path).dropWhile (· = '.') = name at h hsuffix ⊢
  split at h
  · rename_i hpoint
    rw [if_pos hpoint]
    obtain ⟨front, rfl⟩ := hsuffix
    obtain ⟨stem, hname⟩ := exists_of_mem_point (List.contains_iff_mem.mp hpoint)
    refine ⟨front ++ stem, name.rtakeWhile (· ≠ '.'), ?_, rfl, fun hmem => ?_⟩
    · rw [List.append_assoc, ← hname]
    · simpa using List.mem_rtakeWhile_imp hmem
  · exact absurd rfl h

/-- **A path with an extension ends in one point and its extension only.** -/
theorem endsWith_point_iff (h : extension path ≠ []) {w : Text} (hw : '.' ∉ w) :
    Text.endsWith ('.' :: w) path = true ↔ extension path = '.' :: w := by
  obtain ⟨stem, v, hpath, hv, hpoint⟩ := extension_eq_append h
  rw [Text.endsWith, List.isSuffixOf_iff_suffix, hv]
  constructor
  · rintro ⟨front, hfront⟩
    have hrev := congrArg List.reverse (hfront.trans hpath)
    simp only [List.reverse_append, List.reverse_cons, List.append_assoc,
      List.singleton_append] at hrev
    obtain ⟨hwv, -⟩ := Text.append_inj_of_not_mem (by simpa using hw) (by simpa using hpoint) hrev
    rw [List.reverse_inj.mp hwv]
  · intro heq
    exact ⟨stem, by rw [← heq, ← hpath]⟩

end ExportSchema.Path

namespace ExportSchema.Language

open ExportSchema.Path (extension)

variable {fileName : Text} {g : Grammar}

/-! ## Extension and grammar -/

theorem grammarFor?_eq_some (h : grammarFor? fileName = some g) :
    Text.lowerAscii (extension fileName) ∈ moduleExtensions ∧ g = grammarOf fileName := by
  unfold grammarFor? at h
  split at h
  · rename_i hmodule
    exact ⟨List.contains_iff_mem.mp hmodule, (Option.some.inj h).symm⟩
  · cases h

theorem extension_ne_nil (h : Text.lowerAscii (extension fileName) ∈ moduleExtensions) :
    extension fileName ≠ [] := by
  intro hnil
  rw [hnil] at h
  exact absurd h (by decide)

/-- **The grammar of a file is chosen by its extension**, as it is written. -/
theorem grammarOf_eq_tsx_iff (h : extension fileName ≠ []) :
    grammarOf fileName = .tsx ↔ extension fileName ∈ tsxEndings := by
  have hform : ∀ e ∈ tsxEndings, e = '.' :: e.tail ∧ '.' ∉ e.tail := by decide
  have hends : ∀ e ∈ tsxEndings, Text.endsWith e fileName = true ↔ extension fileName = e := by
    intro e he
    obtain ⟨hpoint, hrest⟩ := hform e he
    rw [hpoint]
    exact Path.endsWith_point_iff h hrest
  have hany : tsxEndings.any (Text.endsWith · fileName) = true ↔
      extension fileName ∈ tsxEndings := by
    rw [List.any_eq_true]
    constructor
    · rintro ⟨e, he, hend⟩
      rw [(hends e he).mp hend]
      exact he
    · intro he
      exact ⟨_, he, (hends _ he).mpr rfl⟩
  rw [← hany]
  unfold grammarOf
  split
  · rename_i htsx
    exact iff_of_true rfl htsx
  · rename_i htsx
    exact iff_of_false (fun heq => by cases heq) htsx

/-- **When extension and grammar say the same.** A module is read with element literals iff its
extension, as it is written, is one of the five endings. By its extension in lower case it is read
rightly iff that is none of the five, or is how the extension is written. -/
theorem grammar_agrees_iff (h : grammarFor? fileName = some g) :
    (g = .tsx ↔ extension fileName ∈ tsxEndings) ∧
      ((g = .tsx ↔ Text.lowerAscii (extension fileName) ∈ tsxEndings) ↔
        (Text.lowerAscii (extension fileName) ∈ tsxEndings →
          Text.lowerAscii (extension fileName) = extension fileName)) := by
  obtain ⟨hmodule, rfl⟩ := grammarFor?_eq_some h
  have hwritten := grammarOf_eq_tsx_iff (extension_ne_nil hmodule)
  have hlower : ∀ e ∈ tsxEndings, Text.lowerAscii e = e := by decide
  refine ⟨hwritten, ?_⟩
  constructor
  · intro hsame hin
    exact hlower _ (hwritten.mp (hsame.mpr hin))
  · intro hcase
    rw [hwritten]
    constructor
    · intro hin
      rw [hlower _ hin]
      exact hin
    · intro hin
      rw [← hcase hin]
      exact hin

/-- A directory with the ending `.tsx` and capitals of another ending do no harm. -/
theorem grammar_agrees_of_capitals :
    let fileName := "lib.tsx/Page.test.TS".toList
    grammarFor? fileName = some .typescript ∧
      (Grammar.typescript = .tsx ↔ Text.lowerAscii (extension fileName) ∈ tsxEndings) := by
  intro fileName
  have hfor : grammarFor? fileName = some .typescript := by decide
  exact ⟨hfor, (grammar_agrees_iff hfor).2.mpr fun hin => absurd hin (by decide)⟩

/-- A module `A.TSX` is read without element literals, though its extension is that of a file with
such literals. -/
theorem grammar_differs_of_capitals :
    let fileName := "A.TSX".toList
    grammarFor? fileName = some .typescript ∧
      ¬ (Grammar.typescript = .tsx ↔ Text.lowerAscii (extension fileName) ∈ tsxEndings) := by
  decide

end ExportSchema.Language
