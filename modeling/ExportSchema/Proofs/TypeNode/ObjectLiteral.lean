import ExportSchema.Proofs.TypeNode.BareName
import Mathlib.Data.List.Forall2

/-!
# Object literals

The type of an object literal is printed from its entries. A key that is a string literal is printed
without its quotes, so it reads back iff it can stand without them.

* `Entry.text`: an entry as it is printed.
* `Entry.Stands`: a node of the syntax tree is the node of an entry with a string literal for a key.

Results:
* `objectText_eq`: what is printed for an object literal.
* `shape_entries`: entries with bare names read back.
* `weight_bracedText`: nothing but the entries and their punctuation is in the text.
* `object_literal_reads_back_iff`: an object literal reads back iff all its keys are bare names.
-/

namespace ExportSchema.TypeNode

open Text (trim isBlank weight weight_append weight_cons)
open Lexeme ExportSchema.Bracket

/-! ## Printing -/

/-- An entry as it is printed. -/
def Entry.text (e : Entry) : Text := Module.fieldText e.name e.type

theorem Entry.text_eq (e : Entry) : e.text = e.name ++ ':' :: ' ' :: e.type := by
  show e.name ++ [':', ' '] ++ e.type = _
  simp

/-- The node of the entry `'name': value`, where the value has the keyword type of the entry. -/
structure Entry.Stands (infer : Module.Infer (Except Fault)) (e : Entry) (t : Tree) : Prop where
  kind : t.kind = .pair
  key : ∃ key q, t.child? .key = some key ∧ key.kind = .string ∧ (q = '"' ∨ q = '\'') ∧
    key.text = q :: (e.name ++ [q])
  value : ∃ value, t.child? .value = some value ∧ infer value = .ok e.type
  keyword : e.type ∈ primitiveNames

theorem stripQuotes_quoted {q : Char} (hq : q = '"' ∨ q = '\'') (name : Text) :
    Module.stripQuotes (q :: (name ++ [q])) = name := by
  have hquote : (q = '"' ∨ q = '\'' ∨ q = '\x60') ∧ (name ++ [q]).getLast? = some q :=
    ⟨hq.imp_right Or.inl, List.getLast?_concat⟩
  rw [Module.stripQuotes, if_pos hquote, List.dropLast_concat]
  simp

section Print

variable {infer : Module.Infer (Except Fault)} (lookup : Module.Lookup (Except Fault))

theorem Entry.Stands.objectMember? {e : Entry} {t : Tree} (h : e.Stands infer t) :
    Module.objectMember? infer lookup t = .ok (some e.text) := by
  obtain ⟨key, q, hkey, hkind, hq, htext⟩ := h.key
  obtain ⟨value, hvalue, hinfer⟩ := h.value
  unfold Module.objectMember?
  simp only [h.kind, hkey, hkind, hvalue, hinfer, htext, stripQuotes_quoted hq]
  rfl

theorem mapM_objectMember? {entries : List Entry} {ts : List Tree}
    (h : List.Forall₂ (Entry.Stands infer) entries ts) :
    ts.mapM (Module.objectMember? infer lookup) = .ok (entries.map fun e => some e.text) := by
  induction h with
  | nil => rfl
  | cons he _ ih =>
    rw [List.mapM_cons, he.objectMember? lookup, ih]
    rfl

/-- **What is printed for an object literal.** -/
theorem objectText_eq {entries : List Entry} {t : Tree}
    (h : List.Forall₂ (Entry.Stands infer) entries t.namedChildren) :
    Module.objectText infer lookup t = .ok (Module.bracedText (entries.map Entry.text)) := by
  have hparts : (entries.map fun e => some e.text).filterMap id = entries.map Entry.text := by
    rw [List.filterMap_map]
    exact congrFun List.filterMap_eq_map entries
  unfold Module.objectText
  rw [mapM_objectMember? lookup h]
  show Except.ok (Module.bracedText ((entries.map fun e => some e.text).filterMap id)) = _
  rw [hparts]

end Print

/-! ## Reading -/

section Read

variable {entries : List Entry}

/-- **Entries with bare names read back.** -/
theorem shape_entries (hkeyword : ∀ e ∈ entries, e.type ∈ primitiveNames)
    (hbare : ∀ e ∈ entries, BareName e.name) :
    (parse (Module.bracedText (entries.map Entry.text))).shape =
      .object (entries.map Entry.property) none := by
  have hnested : ∀ t ∈ entries.map Entry.text, Nested t := by
    intro t ht
    obtain ⟨e, he, rfl⟩ := List.mem_map.mp ht
    rw [e.text_eq]
    exact (hbare e he).front.nested_line (lineType_keyword (hkeyword e he))
  have hmembers : ∀ e ∈ entries, members e.text = [.property ⟨e.name, .text e.type, false⟩] := by
    intro e he
    have hline := lineType_keyword (hkeyword e he)
    rw [e.text_eq, (hbare e he).front.members_line hline, (hbare e he).member?_line hline.trimmed]
    rfl
  obtain ⟨inside, htext, hin, hms⟩ := bracedText_texts hnested
  have hprops : members inside =
      (entries.map fun e => ⟨e.name, .text e.type, false⟩).map Member.property := by
    rw [hms, List.flatMap_map, List.flatMap_congr hmembers, ← List.map_eq_flatMap, List.map_map]
    rfl
  have hbuilt : entries.map (fun e => (⟨e.name, parse e.type, false⟩ : Property TypeNode)) =
      entries.map Entry.property :=
    List.map_congr_left fun e he => by
      rw [show parse e.type = _ from parse_keyword (hkeyword e he)]
      rfl
  rw [htext, parse_properties hin hprops, List.map_map, ← hbuilt]
  rfl

theorem weight_join {ts : List Text} (hne : ts ≠ []) :
    weight (Text.join "; ".toList ts) + 1 = (ts.map fun t => weight t + 1).sum := by
  match ts, hne with
  | [t], _ => rfl
  | t :: u :: ts, _ =>
    have ih := weight_join (List.cons_ne_nil u ts)
    have hsep : weight "; ".toList = 1 := by decide
    rw [Text.join, weight_append, weight_append, hsep, List.map_cons, List.sum_cons, ← ih]
    omega

/-- **Nothing but the entries and their punctuation is in the text.** -/
theorem weight_bracedText (hne : entries ≠ []) :
    weight (Module.bracedText (entries.map Entry.text)) = (entries.map Entry.weight).sum + 1 := by
  have hentry : ∀ e : Entry, weight e.text + 1 = e.weight := by
    intro e
    have hcolon : weight (':' :: ' ' :: e.type) = weight e.type + 1 := by
      rw [weight_cons rfl]
      rfl
    rw [e.text_eq, weight_append, hcolon]
    rfl
  have htexts : entries.map Entry.text ≠ [] := by simpa using hne
  have hjoin := weight_join htexts
  rw [List.map_map] at hjoin
  have hsum : (entries.map ((fun t => weight t + 1) ∘ Entry.text)).sum =
      (entries.map Entry.weight).sum :=
    congrArg List.sum (List.map_congr_left fun e _ => hentry e)
  rw [hsum] at hjoin
  have hbraces : Module.bracedText (entries.map Entry.text) =
      "\x7b ".toList ++ Text.join "; ".toList (entries.map Entry.text) ++ " \x7d".toList := by
    cases entries with
    | nil => exact absurd rfl hne
    | cons e entries => rfl
  have hopen : weight "\x7b ".toList = 1 := by decide
  have hclose : weight " \x7d".toList = 1 := by decide
  rw [hbraces, weight_append, weight_append, hopen, hclose]
  omega

theorem not_mem_bracedText (hkeyword : ∀ e ∈ entries, e.type ∈ primitiveNames)
    (hline : ∀ e ∈ entries, '\n' ∉ e.name) :
    '\n' ∉ Module.bracedText (entries.map Entry.text) := by
  have hentry : ∀ t ∈ entries.map Entry.text, '\n' ∉ t := by
    intro t ht
    obtain ⟨e, he, rfl⟩ := List.mem_map.mp ht
    have htype : '\n' ∉ e.type := by
      have hall : ∀ type ∈ primitiveNames, '\n' ∉ type := by decide
      exact hall e.type (hkeyword e he)
    simp [e.text_eq, hline e he, htype]
  have hjoin : '\n' ∉ Text.join "; ".toList (entries.map Entry.text) :=
    join_induction (P := fun t => '\n' ∉ t) List.not_mem_nil
      (fun ht hu => by simp [ht, hu]) (by decide) hentry
  cases entries with
  | nil => decide
  | cons e entries =>
    show '\n' ∉ "\x7b ".toList ++ Text.join "; ".toList _ ++ " \x7d".toList
    rw [List.mem_append, List.mem_append]
    rintro ((hm | hm) | hm)
    · exact absurd hm (by decide)
    · exact hjoin hm
    · exact absurd hm (by decide)

end Read

/-- **An object literal reads back iff all its keys are bare names.** The keys are string literals on
one line, and the values have keyword types. What is printed is an object type with these names and
types, in order, none of them optional, iff every key can stand without its quotes. -/
theorem object_literal_reads_back_iff {infer : Module.Infer (Except Fault)}
    (lookup : Module.Lookup (Except Fault)) {entries : List Entry} {t : Tree}
    (h : List.Forall₂ (Entry.Stands infer) entries t.namedChildren) (hne : entries ≠ [])
    (hline : ∀ e ∈ entries, '\n' ∉ e.name) :
    ∃ text, Module.objectText infer lookup t = .ok text ∧
      ((∃ additional, (parse text).shape = .object (entries.map Entry.property) additional) ↔
        ∀ e ∈ entries, BareName e.name) ∧
      ((∀ e ∈ entries, BareName e.name) →
        (parse text).shape = .object (entries.map Entry.property) none) := by
  have hkeyword : ∀ e ∈ entries, e.type ∈ primitiveNames :=
    ((List.forall₂_and_left entries _).mp (h.imp fun _ _ he => ⟨he.keyword, he⟩)).1
  have hback := shape_entries hkeyword
  refine ⟨_, objectText_eq lookup h, ⟨fun ⟨additional, hshape⟩ => ?_, fun hbare => ?_⟩, hback⟩
  · exact (weight_entries (not_mem_bracedText hkeyword hline) hshape).2
      (weight_bracedText hne).le
  · exact ⟨none, hback hbare⟩

/-- The object `\x7b 'data <k, v>': 1, "": 'x' \x7d`: brackets that match do not count, and a key may be
empty. -/
theorem object_literal_reads_back_of_brackets :
    let none? : Module.Lookup (Except Fault) := fun _ => .ok none
    let leaf (kind : Kind) (field : Field) (text : String) : Tree :=
      ⟨kind, true, some field, text.toList, []⟩
    let pair (key value : Tree) : Tree := ⟨.pair, true, none, [], [key, value]⟩
    let tree : Tree := ⟨.object, true, none, [],
      [pair (leaf .string .key "'data <k, v>'") (leaf .number .value "1"),
        pair (leaf .string .key "\"\"") (leaf .string .value "'x'")]⟩
    let entries : List Entry :=
      [⟨"data <k, v>".toList, "number".toList⟩, ⟨"".toList, "string".toList⟩]
    List.Forall₂ (Entry.Stands (Module.inferType none?)) entries tree.namedChildren ∧
      ∃ text, Module.objectText (Module.inferType none?) none? tree = .ok text ∧
        (parse text).shape = .object (entries.map Entry.property) none := by
  intro none? leaf pair tree entries
  have hstands : List.Forall₂ (Entry.Stands (Module.inferType none?)) entries tree.namedChildren :=
    .cons ⟨rfl, ⟨_, '\'', rfl, rfl, Or.inr rfl, rfl⟩, ⟨_, rfl, rfl⟩, by decide⟩
      (.cons ⟨rfl, ⟨_, '"', rfl, rfl, Or.inl rfl, rfl⟩, ⟨_, rfl, rfl⟩, by decide⟩ .nil)
  obtain ⟨text, htext, -, hback⟩ :=
    object_literal_reads_back_iff none? hstands (by decide) (by decide)
  exact ⟨hstands, text, htext, hback (by decide)⟩

/-- **A colon in a key ends the name**: the object `\x7b 'a:b': 1 \x7d` reads back with a property `a`. -/
theorem object_literal_of_colon :
    let none? : Module.Lookup (Except Fault) := fun _ => .ok none
    let leaf (kind : Kind) (field : Field) (text : String) : Tree :=
      ⟨kind, true, some field, text.toList, []⟩
    let tree : Tree := ⟨.object, true, none, [], [⟨.pair, true, none, [],
      [leaf .string .key "'a:b'", leaf .number .value "1"]⟩]⟩
    let entry : Entry := ⟨"a:b".toList, "number".toList⟩
    List.Forall₂ (Entry.Stands (Module.inferType none?)) [entry] tree.namedChildren ∧
      Module.objectText (Module.inferType none?) none? tree =
        .ok "\x7b a:b: number \x7d".toList ∧
      (parse "\x7b a:b: number \x7d".toList).shape =
        .object [⟨"a".toList, .verbatim "b: number".toList, false⟩] none ∧
      ∀ additional, (parse "\x7b a:b: number \x7d".toList).shape ≠
        .object [entry.property] additional := by
  intro none? leaf tree entry
  have hshape : (parse "\x7b a:b: number \x7d".toList).shape =
      .object [⟨"a".toList, .verbatim "b: number".toList, false⟩] none := rfl
  refine ⟨.cons ⟨rfl, ⟨_, '\'', rfl, rfl, Or.inr rfl, rfl⟩, ⟨_, rfl, rfl⟩, by decide⟩ .nil, rfl,
    hshape, fun additional h => ?_⟩
  cases hshape.symm.trans h

end ExportSchema.TypeNode
