import ExportSchema.Module.Symbol
import ExportSchema.Proofs.TypeNode.Recursion

/-!
# Members and parameters as they are written

A member is written `name: type` or `name?: type`, a parameter in the same way. Alone, both are read
back as they were, whatever the type. Between braces a member ends with its line, so a type on
several lines is cut.

* `isIdentifier`, `isLabel`: a name as it is read elsewhere, and any name that can be told apart from
  the marks around it.
* `Named`: a text in front of a colon that is read as a name, with its mark.
* `Front`, `LineType`: what may stand in front of the colon of a member and behind it, for a member
  on one line.
* `Printable`: a member whose type text is closed in itself.
* `firstLine`, `laterLines`: the lines of a type text at the top level.
* `contribution`: what a written member contributes to its object type.

Results:
* `member?_text`: a member reads back as its name, its type text and its mark.
* `param_markedName`: a parameter reads back as its name and its type text.
* `Front.members_line`: a front and a type on one line are one member.
* `members_listed`: listed members are read one by one.
* `parse_properties`: an object type has the members its inside is read as.
* `parse_bracedText`: an object type that is written out has the members it was written from, each
  with the first line of its type, and what the later lines contribute.
* `parse_of_lines`: members on one line each read back as they were.
-/

namespace ExportSchema.TypeNode

open Text (trim isBlank)
open Lexeme ExportSchema.Bracket

/-! ## Identifiers -/

/-- A letter, underscore or dollar sign, and more characters of names. -/
def isIdentifier : Text → Bool
  | [] => false
  | c :: cs => isNameStart c && cs.all isNameChar

theorem isIdentifier_cons {c : Char} {cs : Text} :
    isIdentifier (c :: cs) = true ↔ isNameStart c = true ∧ ∀ x ∈ cs, isNameChar x = true := by
  simp only [isIdentifier, Bool.and_eq_true, List.all_eq_true]

theorem dottedChars_of_isIdentifier {n : Text} (h : isIdentifier n = true) :
    ∀ x ∈ n, isDottedChar x = true := by
  cases n with
  | nil => cases h
  | cons c cs =>
    obtain ⟨hc, hcs⟩ := isIdentifier_cons.mp h
    intro x hx
    rcases List.mem_cons.mp hx with rfl | hx
    · simp [isDottedChar, hc]
    · simp [isDottedChar, hcs x hx]

/-- A character that may stand in the name of a member or parameter: no blank, no bracket or quote,
and none of the marks that stand around names and types. -/
def isLabelChar (c : Char) : Bool := isPlain c && !isBlank c && !":;,=|?.".toList.contains c

/-- A name of such characters. Every identifier is one, in any script. -/
def isLabel (name : Text) : Bool := name.all isLabelChar

theorem isLabelChar_of_isDottedChar {c : Char} (h : isDottedChar c = true) (hdot : c ≠ '.') :
    isLabelChar c = true := by
  have hblank : isBlank c = false := Text.isBlank_of_class (by decide +kernel) h
  have hmark : List.contains ":;,=|?.".toList c = false := by
    rw [← Bool.not_eq_true, List.contains_iff_mem]
    intro hmem
    have hall : ∀ d ∈ ":;,=|?.".toList, d ≠ '.' → isDottedChar d = false := by decide
    rw [hall c hmem hdot] at h
    cases h
  rw [isLabelChar, isPlain_of_isDottedChar h, hblank, hmark]
  rfl

theorem isLabel_of_isIdentifier {n : Text} (h : isIdentifier n = true) : isLabel n = true := by
  cases n with
  | nil => cases h
  | cons c cs =>
    obtain ⟨hc, hcs⟩ := isIdentifier_cons.mp h
    refine List.all_eq_true.mpr fun x hx => ?_
    refine isLabelChar_of_isDottedChar (dottedChars_of_isIdentifier h x hx) ?_
    rintro rfl
    rcases List.mem_cons.mp hx with rfl | hx
    · exact absurd hc (by decide)
    · exact absurd (hcs '.' hx) (by decide)

theorem ne_nil_of_isIdentifier {n : Text} (h : isIdentifier n = true) : n ≠ [] := by
  rintro rfl
  cases h

/-- A text without a blank does not start with a word and a blank. -/
theorem after?_of_not_mem {word t : Text} {c : Char} (hw : c ∈ word) (ht : c ∉ t) :
    Text.after? word t = none := by
  refine Option.eq_none_iff_forall_not_mem.mpr fun rest h => ht ?_
  have happ : word ++ rest = t := List.isPrefixOf?_eq_some_iff_append_eq.mp h
  rw [← happ]
  exact List.mem_append_left rest hw

/-! ## The mark of optional members -/

/-- A name, with a question mark behind it when it is optional. -/
def markedName (name : Text) (optional : Bool) : Text := name ++ (if optional then ['?'] else [])

/-- A character of a name, or the mark. -/
def isMarkedChar (c : Char) : Bool := isLabelChar c || c = '?'

theorem labelChars {n : Text} (h : isLabel n = true) : ∀ c ∈ n, isLabelChar c = true :=
  List.all_eq_true.mp h

theorem getLast?_ne_of_isLabel {n : Text} (h : isLabel n = true) : n.getLast? ≠ some '?' := by
  intro hl
  exact not_mem_of_class (labelChars h) (by decide) (List.mem_of_getLast? hl)

theorem stripEndWith_of_getLast? {t : Text} (h : t.getLast? ≠ some '?') :
    Text.stripEndWith (· = '?') t = t := by
  refine List.rdropWhile_eq_self_iff.mpr fun hne hc => h ?_
  rw [List.getLast?_eq_some_getLast hne, of_decide_eq_true hc]

/-- **The mark is taken off again**, from any trimmed text that does not end with one itself. -/
theorem splitOptional_mark {t : Text} (htrim : trim t = t) (hlast : t.getLast? ≠ some '?')
    (optional : Bool) : splitOptional (markedName t optional) = (t, optional) := by
  have hself := stripEndWith_of_getLast? hlast
  unfold splitOptional markedName
  cases optional with
  | false =>
    simp only [Bool.false_eq_true, if_false, List.append_nil, hself, htrim,
      decide_eq_false hlast]
  | true =>
    have hstrip : Text.stripEndWith (· = '?') (t ++ ['?']) = t :=
      (List.rdropWhile_concat_pos _ _ _ rfl).trans hself
    simp [hstrip, htrim]

theorem splitOptional_markedName {name : Text} (h : isLabel name = true) (optional : Bool) :
    splitOptional (markedName name optional) = (name, optional) :=
  splitOptional_mark (trim_of_class (labelChars h) (by decide +kernel)) (getLast?_ne_of_isLabel h)
    optional

theorem markedName_append (name : Text) (optional : Bool) (type : Text) :
    name ++ (if optional then ['?'] else []) ++ ": ".toList ++ type =
      markedName name optional ++ ':' :: ' ' :: type := by
  show markedName name optional ++ [':', ' '] ++ type = _
  simp

section Label

variable {name : Text} (h : isLabel name = true) (optional : Bool)
include h

theorem markedChars : ∀ c ∈ markedName name optional, isMarkedChar c = true := by
  intro c hc
  rcases List.mem_append.mp hc with hc | hc
  · simp [isMarkedChar, labelChars h c hc]
  · split at hc
    · rw [List.mem_singleton.mp hc]
      decide
    · cases hc

theorem trim_markedName : trim (markedName name optional) = markedName name optional :=
  trim_of_class (markedChars h optional) (by decide +kernel)

theorem settled_markedName : Settled (markedName name optional) :=
  settled_of_class (markedChars h optional) (by decide) (by decide)

theorem clearFrom_markedName {delims : Text} (hd : ∀ c ∈ delims, isMarkedChar c = false) :
    clearFrom delims .start (markedName name optional) = true :=
  clearFrom_of_class (markedChars h optional) hd .start

/-- The name and the type of a member are on both sides of its first colon. -/
theorem cutAt?_markedName (type : Text) :
    cutAt? [':'] (markedName name optional ++ ':' :: type) =
      some (markedName name optional, type) := by
  refine cutAt?_append (clearFrom_markedName h optional (by decide)) ?_ rfl
  rw [(settled_markedName h optional).run]
  rfl

/-- A parameter is its name and the trimmed text behind the colon. -/
theorem param_markedName (type : Text) :
    param (markedName name optional ++ ':' :: type) = ⟨name, trim type⟩ := by
  have hclear : cutAt? ['='] (markedName name optional) = none :=
    cutAt?_of_clear (clearFrom_markedName h optional (by decide))
  have hdots : Text.after? "...".toList (markedName name optional) = none :=
    after?_of_not_mem (c := '.') (by decide) (not_mem_of_class (markedChars h optional) (by decide))
  unfold param
  rw [cutAt?_markedName h]
  simp only [trim_markedName h, hclear, hdots, Option.getD_none, splitOptional_markedName h]

end Label

/-- A word with the blank `b` in it is not in front of a text that goes on without that blank, or
breaks off at a character that is not in the word. -/
theorem not_prefix_of_break {word a u : Text} {b : Char} (hb : b ∈ word) (ha : b ∉ a)
    (hu : ∀ c, u.head? = some c → c ∉ word) : ¬ word <+: a ++ u := by
  intro h
  rcases Nat.le_total word.length a.length with hle | hle
  · exact ha ((List.prefix_of_prefix_length_le h (List.prefix_append a u) hle).subset hb)
  · obtain ⟨v, rfl⟩ := List.prefix_of_prefix_length_le (List.prefix_append a u) h hle
    have hv : v <+: u := (List.prefix_append_right_inj a).mp h
    cases v with
    | nil => exact ha (by simpa using hb)
    | cons c v =>
      obtain ⟨rest, rfl⟩ := hv
      exact hu c rfl (by simp)

/-- What stands before the colon of a member is a name, with or without parameters behind it: it has
no modifier, and it starts neither an index signature nor a signature of the object itself. -/
structure Named (t : Text) : Prop where
  unmarked : dropReadonly t = t
  notIndex : Text.startsWith ['['] t = false
  notSelf : isSelfSignature t = false

instance (t : Text) : Decidable (Named t) :=
  decidable_of_iff (dropReadonly t = t ∧ Text.startsWith ['['] t = false ∧ isSelfSignature t = false)
    ⟨fun ⟨a, b, c⟩ => ⟨a, b, c⟩, fun ⟨a, b, c⟩ => ⟨a, b, c⟩⟩

section Front

variable {name : Text} (h : isLabel name = true) (hne : name ≠ [])
include h hne

theorem head?_markedName (optional : Bool) :
    ∃ c, (markedName name optional).head? = some c ∧ isLabelChar c = true := by
  cases name with
  | nil => exact absurd rfl hne
  | cons c cs => exact ⟨c, rfl, labelChars h c List.mem_cons_self⟩

theorem unquote_of_isLabel : unquote name = name := by
  match name, h, hne with
  | [c], _, _ => rfl
  | c :: d :: cs, h, _ =>
    have hc := labelChars h c List.mem_cons_self
    have hq : ¬ ((c = '"' ∨ c = '\'') ∧ (d :: cs).getLast? = some c) := by
      rintro ⟨rfl | rfl, -⟩
      · exact absurd hc (by decide)
      · exact absurd hc (by decide)
    rw [unquote, if_neg hq]
    simp

/-- A name, with or without parameters behind it, is read as it is written. -/
theorem named_markedName (optional : Bool) {u : Text}
    (hu : ∀ c, u.head? = some c → isOpener c = true) : Named (markedName name optional ++ u) := by
  have hblank : ' ' ∉ markedName name optional :=
    not_mem_of_class (markedChars h optional) (by decide)
  have hbreak : ∀ word, ' ' ∈ word → (∀ c ∈ word, isOpener c = false) →
      ¬ word <+: markedName name optional ++ u := fun word hw hp =>
    not_prefix_of_break hw hblank fun c hc hmem => by
      have hopen := hu c hc
      rw [hp c hmem] at hopen
      cases hopen
  have hhead : ∀ x, isLabelChar x = false →
      Text.startsWith [x] (markedName name optional ++ u) = false := by
    intro x hx
    obtain ⟨c, hc, hl⟩ := head?_markedName h hne optional
    rw [← Bool.not_eq_true]
    intro hst
    cases hm : markedName name optional with
    | nil => rw [hm] at hc; cases hc
    | cons d ds =>
      rw [hm] at hc hst
      cases hc
      rw [startsWith_singleton.mp hst, hx] at hl
      cases hl
  have hnew : Text.startsWith "new ".toList (markedName name optional ++ u) = false := by
    rw [← Bool.not_eq_true]
    exact fun hst => hbreak _ (by decide) (by decide) (List.isPrefixOf_iff_prefix.mp hst)
  refine ⟨?_, hhead '[' (by decide), ?_⟩
  · have hafter : Text.after? "readonly ".toList (markedName name optional ++ u) = none := by
      refine Option.eq_none_iff_forall_not_mem.mpr fun rest hr => ?_
      exact hbreak _ (by decide) (by decide) ⟨rest, List.isPrefixOf?_eq_some_iff_append_eq.mp hr⟩
    unfold dropReadonly
    rw [hafter]
  · unfold isSelfSignature
    rw [hhead '(' (by decide), hhead '<' (by decide), hnew]
    rfl

end Front

/-! ## Members -/

section Cut

variable {raw a b : Text} (hcut : cutAt? [':'] raw = some (a, b)) (h : Named (trim a))
include hcut h

/-- A name without parentheses is that of a property. -/
theorem member?_property (hparen : '(' ∉ trim a) :
    member? raw = some (.property ⟨unquote (splitOptional (trim a)).1, .text (trim b),
      (splitOptional (trim a)).2⟩) := by
  have hno : (trim a).contains '(' = false := by
    rwa [← Bool.not_eq_true, List.contains_iff_mem]
  unfold member?
  rw [hcut]
  simp only [Option.bind_eq_bind, Option.bind_some, h.unmarked, h.notIndex, h.notSelf, hno]
  rfl

/-- A name with parentheses is that of a method or an accessor. -/
theorem member?_call (hparen : '(' ∈ trim a) :
    member? raw = (methodMember? (trim ((trim a).takeWhile (· ≠ '(')))
      (trim ((trim a).dropWhile (· ≠ '('))) (trim b)).map Member.property := by
  have hyes : (trim a).contains '(' = true := List.contains_iff_mem.mpr hparen
  unfold member?
  rw [hcut]
  simp only [Option.bind_eq_bind, Option.bind_some, h.unmarked, h.notIndex, h.notSelf, hyes]
  cases methodMember? (trim ((trim a).takeWhile (· ≠ '('))) (trim ((trim a).dropWhile (· ≠ '(')))
    (trim b) <;> rfl

end Cut

/-- **A member reads back** as its name, its type text and its mark. -/
theorem member?_text {m : ExportSchema.Member} (hl : isLabel m.name = true) (hne : m.name ≠ [])
    (ht : trim m.type = m.type) :
    member? m.text = some (.property ⟨m.name, .text m.type, m.optional⟩) := by
  have htype : trim (' ' :: m.type) = m.type := by rw [Text.trim_cons rfl, ht]
  have hnamed := named_markedName hl hne m.optional (u := []) fun c hc => by cases hc
  have hparen : '(' ∉ markedName m.name m.optional :=
    not_mem_of_class (markedChars hl m.optional) (by decide)
  have htrim := trim_markedName hl m.optional
  rw [List.append_nil] at hnamed
  unfold ExportSchema.Member.text
  rw [markedName_append, member?_property (cutAt?_markedName hl m.optional (' ' :: m.type))
    (by rwa [htrim]) (by rwa [htrim]), htrim, htype, splitOptional_markedName hl,
    unquote_of_isLabel hl hne]

/-! ## Members on one line -/

/-- What stands before the colon of a member: properly nested, with no delimiter at its top level and
no blank at its ends. -/
structure Front (front : Text) : Prop where
  nested : Nested front
  clear : clearFrom ":;,\n".toList .start front = true
  trimmed : trim front = front

instance (front : Text) : Decidable (Front front) :=
  decidable_of_iff (Nested front ∧ clearFrom ":;,\n".toList .start front = true ∧ trim front = front)
    ⟨fun ⟨a, b, c⟩ => ⟨a, b, c⟩, fun ⟨a, b, c⟩ => ⟨a, b, c⟩⟩

theorem front_markedName {name : Text} (h : isLabel name = true) (optional : Bool) :
    Front (markedName name optional) :=
  ⟨(settled_markedName h optional).nested, clearFrom_markedName h optional (by decide),
    trim_markedName h optional⟩

/-- A name and parameters in parentheses. -/
theorem front_call {a inside : Text} (ha : Settled a)
    (hclear : clearFrom ":;,\n".toList .start a = true)
    (hhead : ∀ c, a.head? = some c → isBlank c = false) (hin : Nested inside) :
    Front (a ++ '(' :: (inside ++ [')'])) := by
  have hgroup : ClosesBehind .start inside ')' := hin.closesBehind rfl fun h => by cases h
  refine ⟨(ha.append (settled_group rfl hgroup)).nested,
    ha.clear_append hclear (clearFrom_group rfl hgroup (by decide) false), ?_⟩
  rw [Text.trim_append hhead rfl rfl, Text.trim_between rfl rfl]

/-- A type text that a member ends with: properly nested, with no end of a member at its top level, not
empty and with no blank at its ends. -/
structure LineType (type : Text) : Prop where
  nested : Nested type
  clear : clearFrom ";,\n".toList .start type = true
  trimmed : trim type = type
  ne : type ≠ []

instance (type : Text) : Decidable (LineType type) :=
  decidable_of_iff (Nested type ∧ clearFrom ";,\n".toList .start type = true ∧ trim type = type ∧
    type ≠ []) ⟨fun ⟨a, b, c, d⟩ => ⟨a, b, c, d⟩, fun ⟨a, b, c, d⟩ => ⟨a, b, c, d⟩⟩

section Line

variable {front type : Text} (hf : Front front) (ht : LineType type)
include hf

/-- Both sides of the first colon. -/
theorem Front.cutAt?_line (type : Text) :
    cutAt? [':'] (front ++ ':' :: ' ' :: type) = some (front, ' ' :: type) := by
  refine cutAt?_append (clearFrom_mono (by decide) hf.clear) ?_ rfl
  rw [hf.nested.run_start]
  rfl

include ht

theorem Front.nested_line : Nested (front ++ ':' :: ' ' :: type) := by
  have hcolon : Nested [':', ' '] := nested_plain (by decide)
  exact hf.nested.append (hcolon.append ht.nested)

theorem Front.clear_line : clearFrom ";,\n".toList .start (front ++ ':' :: ' ' :: type) = true := by
  refine clearFrom_append.mpr ⟨clearFrom_mono (by decide) hf.clear, ?_⟩
  rw [hf.nested.run_start]
  refine clearFrom_cons.mpr ⟨fun hm => Bool.noConfusion hm.2, ?_⟩
  rw [step_separator (by decide) (by decide)]
  exact (settled_plain (by decide) (by decide) : Settled [' ']).clear_append (by decide) ht.clear

theorem Front.trim_line : trim (front ++ ':' :: ' ' :: type) = front ++ ':' :: ' ' :: type := by
  refine Text.trim_eq_self (fun c hc => ?_) fun c hc => ?_
  · cases front with
    | nil =>
      cases hc
      rfl
    | cons d front => exact (Text.trim_eq_self_iff.mp hf.trimmed).1 c hc
  · rw [List.getLast?_append_of_ne_nil _ (by simp),
      show ':' :: ' ' :: type = [':', ' '] ++ type from rfl,
      List.getLast?_append_of_ne_nil _ ht.ne] at hc
    exact (Text.trim_eq_self_iff.mp ht.trimmed).2 c hc

/-- **A line is one member at most.** -/
theorem Front.members_line :
    members (front ++ ':' :: ' ' :: type) = (member? (front ++ ':' :: ' ' :: type)).toList := by
  have hpieces : pieces ";,\n".toList (front ++ ':' :: ' ' :: type) =
      [front ++ ':' :: ' ' :: type] :=
    pieces_of_clear (hf.clear_line ht) (hf.trim_line ht) (by simp)
  show (pieces ";,\n".toList _).filterMap member? = _
  rw [hpieces, List.filterMap_cons]
  cases member? (front ++ ':' :: ' ' :: type) <;> rfl

end Line

/-! ## Object types as they are written -/

/-- A member whose name is an identifier and whose type text is trimmed, not empty and properly
nested, with neither semicolon nor comma at the top level. -/
structure Printable (m : ExportSchema.Member) : Prop where
  name : isIdentifier m.name = true
  trimmed : trim m.type = m.type
  nonempty : m.type ≠ []
  nested : Nested m.type
  clear : clearFrom [';', ','] .start m.type = true

instance (m : ExportSchema.Member) : Decidable (Printable m) :=
  decidable_of_iff (isIdentifier m.name = true ∧ trim m.type = m.type ∧ m.type ≠ [] ∧
    Nested m.type ∧ clearFrom [';', ','] .start m.type = true)
    ⟨fun ⟨a, b, c, d, e⟩ => ⟨a, b, c, d, e⟩, fun ⟨a, b, c, d, e⟩ => ⟨a, b, c, d, e⟩⟩

/-- The lines of a text at the top level, trimmed, without the empty ones. -/
def lines (t : Text) : List Text := pieces ['\n'] t

/-- The first line of a text. -/
def firstLine (t : Text) : Text := (lines t).headD []

/-- The lines after the first. -/
def laterLines (t : Text) : List Text := (lines t).tail

theorem lines_of_clear {t : Text} (h : clearFrom ['\n'] .start t = true) (ht : trim t = t)
    (hne : t ≠ []) : firstLine t = t ∧ laterLines t = [] := by
  unfold firstLine laterLines lines
  rw [pieces_of_clear h ht hne]
  exact ⟨rfl, rfl⟩

/-- The name of a member with the colon and the blank behind it. -/
def label (m : ExportSchema.Member) : Text := markedName m.name m.optional ++ [':', ' ']

theorem text_eq_label (m : ExportSchema.Member) : m.text = label m ++ m.type := by
  unfold ExportSchema.Member.text label
  rw [markedName_append]
  simp

theorem settled_label {m : ExportSchema.Member} (h : isIdentifier m.name = true) :
    Settled (label m) :=
  (settled_markedName (isLabel_of_isIdentifier h) m.optional).append
    (settled_plain (by decide) (by decide))

theorem clearFrom_label {m : ExportSchema.Member} (h : isIdentifier m.name = true) {delims : Text}
    (hd : ∀ c ∈ delims, isMarkedChar c = false ∧ [':', ' '].contains c = false) :
    clearFrom delims .start (label m) = true := by
  have hcolon : clearFrom delims .start [':', ' '] = true :=
    clearFrom_of_class (p := [':', ' '].contains) (by decide) (fun c hc => (hd c hc).2) .start
  have hl := isLabel_of_isIdentifier h
  exact (settled_markedName hl m.optional).clear_append
    (clearFrom_markedName hl m.optional fun c hc => (hd c hc).1) hcolon

theorem head?_label {m : ExportSchema.Member} (h : isIdentifier m.name = true) :
    ∀ c, (label m).head? = some c → isBlank c = false := by
  obtain ⟨d, hd, -⟩ :=
    head?_markedName (isLabel_of_isIdentifier h) (ne_nil_of_isIdentifier h) m.optional
  intro c hc
  unfold label at hc
  rw [List.head?_append, hd] at hc
  cases hc
  exact (Text.trim_eq_self_iff.mp (trim_markedName (isLabel_of_isIdentifier h) m.optional)).1 d hd

theorem nested_text {m : ExportSchema.Member} (h : Printable m) : Nested m.text := by
  rw [text_eq_label]
  exact (settled_label h.name).nested.append h.nested

/-- **The pieces of a written member** are the member with the first line of its type, and the
later lines of the type. -/
theorem pieces_text {m : ExportSchema.Member} (h : Printable m) :
    trim (firstLine m.type) = firstLine m.type ∧
      pieces ";,\n".toList m.text =
        ({ m with type := firstLine m.type } : ExportSchema.Member).text :: laterLines m.type := by
  obtain ⟨c, hc⟩ : ∃ c, m.type.head? = some c := by
    cases ht : m.type with
    | nil => exact absurd ht h.nonempty
    | cons c cs => exact ⟨c, rfl⟩
  have hblank : isBlank c = false := (Text.trim_eq_self_iff.mp h.trimmed).1 c hc
  have hdelim : List.contains ";,\n".toList c = false := by
    rw [← Bool.not_eq_true, List.contains_iff_mem]
    intro hmem
    have hmark : State.start.mark c = some 0 := by
      have : ∀ d ∈ ";,\n".toList, State.start.mark d = some 0 := by decide
      exact this c hmem
    have hcases : c = ';' ∨ c = ',' ∨ c = '\n' := by simpa using hmem
    cases ht : m.type with
    | nil => exact h.nonempty ht
    | cons d ds =>
      rw [ht] at hc
      cases hc
      have hclear := h.clear
      rw [ht] at hclear
      obtain ⟨hn, -⟩ := clearFrom_cons.mp hclear
      rcases hcases with rfl | rfl | rfl
      · exact hn ⟨hmark, rfl⟩
      · exact hn ⟨hmark, rfl⟩
      · exact absurd hblank (by decide)
  have hlines : pieces ";,\n".toList m.type = lines m.type := pieces_append_delims h.clear ['\n']
  obtain ⟨first, rest, hp, htrim, happ⟩ := pieces_append_settled (settled_label h.name)
    (clearFrom_label h.name (by decide)) (head?_label h.name) hc hblank hdelim
  rw [hlines] at hp
  have hfirst : firstLine m.type = first := by
    unfold firstLine
    rw [hp]
    rfl
  have hlater : laterLines m.type = rest := by
    unfold laterLines
    rw [hp]
    rfl
  rw [hfirst, hlater, text_eq_label, text_eq_label]
  exact ⟨htrim, happ⟩

/-- What a written member contributes to its object type: itself with the first line of its type,
and whatever the later lines say. -/
def contribution (m : ExportSchema.Member) : List Member :=
  .property ⟨m.name, .text (firstLine m.type), m.optional⟩ :: (laterLines m.type).filterMap member?

theorem filterMap_pieces_text {m : ExportSchema.Member} (h : Printable m) :
    (pieces ";,\n".toList m.text).filterMap member? = contribution m := by
  obtain ⟨htrim, hp⟩ := pieces_text h
  have hfirst := member?_text (m := { m with type := firstLine m.type })
    (isLabel_of_isIdentifier h.name) (ne_nil_of_isIdentifier h.name) htrim
  rw [hp, List.filterMap_cons, hfirst]
  rfl

/-- The members of texts with semicolons between them are those of each. -/
theorem members_join {ts : List Text} (h : ∀ t ∈ ts, Nested t) :
    members (' ' :: (Text.join "; ".toList ts ++ [' '])) = ts.flatMap members := by
  have hsep : Separator ";,\n".toList "; ".toList :=
    ⟨[], ';', [' '], rfl, by decide, by decide, by decide, by decide, by decide⟩
  show (pieces ";,\n".toList _).filterMap member? = _
  rw [pieces_cons_blank rfl rfl, pieces_concat_blank rfl rfl, pieces_join hsep h,
    List.filterMap_flatMap]
  rfl

/-- **The members of listed texts** are those of each, whatever stands between them. -/
theorem members_listed {ts : List Text} {u : Text} (h : Listed ";,\n".toList ts u)
    (hts : ∀ t ∈ ts, Nested t) : Nested u ∧ members u = ts.flatMap members := by
  have hdelims : ∀ c ∈ ";,\n".toList, isPlain c = true ∧ c ≠ '=' := by decide
  refine ⟨nested_listed hdelims h hts, ?_⟩
  show (pieces ";,\n".toList u).filterMap member? = _
  rw [pieces_listed hdelims h hts, List.filterMap_flatMap]
  rfl

/-- What stands between the braces of texts that are written out. -/
theorem bracedText_texts {ts : List Text} (h : ∀ t ∈ ts, Nested t) :
    ∃ inside, Module.bracedText ts = '{' :: (inside ++ ['}']) ∧ Nested inside ∧
      members inside = ts.flatMap members := by
  cases ts with
  | nil => exact ⟨[], rfl, nested_nil, rfl⟩
  | cons t ts =>
    refine ⟨_, ?_, ?_, members_join h⟩
    · show '{' :: ' ' :: (Text.join "; ".toList (t :: ts)) ++ [' ', '}'] = _
      simp
    · have hblank : Nested [' '] := nested_plain (by decide)
      exact hblank.append ((nested_join (nested_plain (by decide)) h).append hblank)

/-- What stands between the braces of written members. -/
theorem bracedText_eq {ms : List ExportSchema.Member} (h : ∀ m ∈ ms, Printable m) :
    ∃ inside, Module.bracedText (ms.map (·.text)) = '{' :: (inside ++ ['}']) ∧ Nested inside ∧
      members inside = ms.flatMap contribution := by
  have hnested : ∀ t ∈ ms.map (·.text), Nested t := by
    intro t ht
    obtain ⟨m, hm, rfl⟩ := List.mem_map.mp ht
    exact nested_text (h m hm)
  obtain ⟨inside, htext, hin, hms⟩ := bracedText_texts hnested
  refine ⟨inside, htext, hin, ?_⟩
  rw [hms, List.flatMap_map]
  exact List.flatMap_congr fun m hm => filterMap_pieces_text (h m hm)

/-- Braces around nested text are an object type of the members between them. -/
theorem layer_braces {inside : Text} (h : Nested inside) :
    layer ('{' :: (inside ++ ['}'])) = .plain ('{' :: (inside ++ ['}']))
      (.object ((members inside).filterMap Member.property?)
        (((members inside).filterMap Member.index?).getLast?.map Part.text)) := by
  have hb : ClosesBehind .start inside '}' := h.closesBehind rfl fun h => by cases h
  have htrim : trim ('{' :: (inside ++ ['}'])) = '{' :: (inside ++ ['}']) :=
    Text.trim_between rfl rfl inside
  have hobj : objectLayer ('{' :: (inside ++ ['}'])) = some (.plain ('{' :: (inside ++ ['}']))
      (.object ((members inside).filterMap Member.property?)
        (((members inside).filterMap Member.index?).getLast?.map Part.text))) := by
    unfold objectLayer
    rw [(enclosed?_eq_some_iff rfl).mpr ⟨'}', rfl, hb⟩]
    rfl
  rw [layer_eq_construct htrim rfl (enclosed?_of_head (by simp)), construct_eq_of_object hobj]

/-- **An object type reads as** the members between its braces. -/
theorem parse_braces {inside : Text} (h : Nested inside) :
    parse ('{' :: (inside ++ ['}'])) = .plain ('{' :: (inside ++ ['}']))
      (.object (((members inside).filterMap Member.property?).map (·.map (·.build parse)))
        (((members inside).filterMap Member.index?).getLast?.map parse)) := by
  rw [parse_eq, layer_braces h]
  simp only [Layer.plain, Layer.build, Shape.map, Option.map_map]
  rfl

/-- **An object type whose members are all properties** has these properties. -/
theorem parse_properties {inside : Text} (h : Nested inside) {ps : List (Property Part)}
    (hms : members inside = ps.map Member.property) :
    parse ('{' :: (inside ++ ['}'])) = .plain ('{' :: (inside ++ ['}']))
      (.object (ps.map (·.map (·.build parse))) none) := by
  have hprops : (members inside).filterMap Member.property? = ps := by
    rw [hms, List.filterMap_map]
    exact List.filterMap_some
  have hindex : (members inside).filterMap Member.index? = [] := by
    rw [hms, List.filterMap_map]
    exact List.filterMap_eq_nil_iff.mpr fun p _ => rfl
  rw [parse_braces h, hprops, hindex]
  rfl

/-- **A line between braces** is an object type with what the line reads as for its only property, or
without properties. -/
theorem Front.shape_line {front type : Text} (hf : Front front) (ht : LineType type)
    (p? : Option (Property Part))
    (hm : member? (front ++ ':' :: ' ' :: type) = p?.map Member.property) :
    (parse (Module.bracedText [front ++ ':' :: ' ' :: type])).shape =
      .object (p?.map (·.map (·.build parse))).toList none := by
  obtain ⟨inside, htext, hin, hms⟩ :=
    bracedText_texts (List.forall_mem_singleton.mpr (hf.nested_line ht))
  have hline : members inside = p?.toList.map Member.property := by
    rw [hms, List.flatMap_singleton, hf.members_line ht, hm]
    cases p? <;> rfl
  rw [htext, parse_properties hin hline]
  cases p? <;> rfl

/-- **What an object type that is written out reads as.** -/
theorem parse_bracedText {ms : List ExportSchema.Member} (h : ∀ m ∈ ms, Printable m) :
    parse (Module.bracedText (ms.map (·.text))) = .plain (Module.bracedText (ms.map (·.text)))
      (.object (((ms.flatMap contribution).filterMap Member.property?).map (·.map (·.build parse)))
        (((ms.flatMap contribution).filterMap Member.index?).getLast?.map parse)) := by
  obtain ⟨inside, ht, hin, hms⟩ := bracedText_eq h
  rw [ht, parse_braces hin, hms]

/-- Where later lines contribute nothing, each member contributes itself with its first line. -/
theorem flatMap_contribution {ms : List ExportSchema.Member}
    (h : ∀ m ∈ ms, (laterLines m.type).filterMap member? = []) :
    ms.flatMap contribution =
      ms.map fun m => .property ⟨m.name, .text (firstLine m.type), m.optional⟩ := by
  induction ms with
  | nil => rfl
  | cons m ms ih =>
    rw [List.flatMap_cons, contribution, h m List.mem_cons_self,
      ih fun x hx => h x (List.mem_cons_of_mem m hx)]
    rfl

/-- Where later lines contribute nothing, the members read back with their first lines. -/
theorem parse_of_laterLines {ms : List ExportSchema.Member} (h : ∀ m ∈ ms, Printable m)
    (hlater : ∀ m ∈ ms, (laterLines m.type).filterMap member? = []) :
    parse (Module.bracedText (ms.map (·.text))) = .plain (Module.bracedText (ms.map (·.text)))
      (.object (ms.map fun m => ⟨m.name, parse (firstLine m.type), m.optional⟩) none) := by
  obtain ⟨inside, htext, hin, hms⟩ := bracedText_eq h
  have hprops : members inside =
      (ms.map fun m => ⟨m.name, .text (firstLine m.type), m.optional⟩).map Member.property := by
    rw [hms, flatMap_contribution hlater, List.map_map]
    rfl
  rw [htext, parse_properties hin hprops, List.map_map]
  rfl

/-- **Members on one line each read back as they were.** -/
theorem parse_of_lines {ms : List ExportSchema.Member} (h : ∀ m ∈ ms, Printable m)
    (hone : ∀ m ∈ ms, clearFrom ['\n'] .start m.type = true) :
    parse (Module.bracedText (ms.map (·.text))) = .plain (Module.bracedText (ms.map (·.text)))
      (.object (ms.map fun m => ⟨m.name, parse m.type, m.optional⟩) none) := by
  have hlines : ∀ m ∈ ms, firstLine m.type = m.type ∧ laterLines m.type = [] := fun m hm =>
    lines_of_clear (hone m hm) (h m hm).trimmed (h m hm).nonempty
  have hlater : ∀ m ∈ ms, (laterLines m.type).filterMap member? = [] := by
    intro m hm
    rw [(hlines m hm).2]
    rfl
  have hfirst : (ms.map fun m => (⟨m.name, parse (firstLine m.type), m.optional⟩ :
      Property TypeNode)) = ms.map fun m => ⟨m.name, parse m.type, m.optional⟩ :=
    List.map_congr_left fun m hm => by rw [(hlines m hm).1]
  rw [parse_of_laterLines h hlater, hfirst]

end ExportSchema.TypeNode
