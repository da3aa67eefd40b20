import ExportSchema.Proofs.TypeNode.Member

/-!
# Type expressions and their text

Type expressions are the constructs that type text is documented to have. Each is printed in the
usual way, with parentheses only where a union or a function stands as the element of an array or
as a member of a union.

* `TypeExpr`, `TypeExpr.print`, `TypeExpr.node`: an expression, its text and its type node.
* `TypeExpr.WellFormed`: names are identifiers, literals are literals, unions have two members.
* `Printed`: what the text of every expression is like.

Results:
* `operand_parenthesized`: text in parentheses may stand anywhere.
* `printed_print`: the text of a well-formed expression is closed in itself, trimmed, not empty,
  has no separator of members or parameters at the top level and does not start with `readonly`.
-/

namespace ExportSchema

open Text (trim isBlank)
open Lexeme ExportSchema.Bracket

/-! ## Expressions -/

/-- A literal type, by what is written. -/
inductive LiteralExpr where
  | truth (value : Bool)
  | integer (negative : Bool) (digits : Text)
  | string (quote : Char) (body : Text)

/-- The text of a literal. -/
def LiteralExpr.text : LiteralExpr → Text
  | .truth value => if value then "true".toList else "false".toList
  | .integer negative digits => if negative then '-' :: digits else digits
  | .string quote body => quote :: (body ++ [quote])

/-- Digits are there and are digits; a body holds neither its quote nor a backslash. -/
def LiteralExpr.WellFormed : LiteralExpr → Prop
  | .truth _ => True
  | .integer _ digits => digits ≠ [] ∧ ∀ c ∈ digits, '0' ≤ c ∧ c ≤ '9'
  | .string quote body => (quote = '"' ∨ quote = '\'') ∧ quote ∉ body ∧ '\\' ∉ body

/-- A type expression. -/
inductive TypeExpr where
  | keyword (name : Text)
  | named (name : Text)
  | literal (value : LiteralExpr)
  | array (element : TypeExpr)
  | object (members : List (Property TypeExpr))
  | union (members : List TypeExpr)
  | function (params : List (Param TypeExpr)) (returns : TypeExpr)
  /-- A component, by its base, with or without the qualifier `React.`. -/
  | component (qualified : Bool) (base : Text) (props : TypeExpr)

namespace TypeExpr

/-- The words that are no names of types. -/
def reserved : List Text := primitiveNames ++ ["true", "false", "readonly"].map String.toList

/-- The expression has a text that means it. -/
inductive WellFormed : TypeExpr → Prop
  | keyword {n : Text} (h : n ∈ primitiveNames) : WellFormed (.keyword n)
  | named {n : Text} (h : TypeNode.isIdentifier n = true) (hr : n ∉ reserved) : WellFormed (.named n)
  | literal {l : LiteralExpr} (h : l.WellFormed) : WellFormed (.literal l)
  | array {e : TypeExpr} (h : WellFormed e) : WellFormed (.array e)
  | object {ms : List (Property TypeExpr)} (hn : ∀ p ∈ ms, TypeNode.isIdentifier p.name = true)
      (h : ∀ p ∈ ms, WellFormed p.type) : WellFormed (.object ms)
  | union {ms : List TypeExpr} (htwo : 2 ≤ ms.length)
      (hnull : ∀ n ∈ nullishNames, .keyword n ∉ ms) (h : ∀ m ∈ ms, WellFormed m) :
      WellFormed (.union ms)
  | function {ps : List (Param TypeExpr)} {r : TypeExpr}
      (hn : ∀ p ∈ ps, TypeNode.isIdentifier p.name = true) (h : ∀ p ∈ ps, WellFormed p.type)
      (hr : WellFormed r) : WellFormed (.function ps r)
  | component {q : Bool} {base : Text} {e : TypeExpr} (hb : base ∈ TypeNode.componentBases)
      (h : WellFormed e) : WellFormed (.component q base e)

/-- Does the expression need parentheses as an element or a member? -/
def isWide : TypeExpr → Bool
  | .union _ | .function _ _ => true
  | _ => false

/-- A text, in parentheses when `wide` says so. -/
def wrap (wide : Bool) (t : Text) : Text := if wide then '(' :: (t ++ [')']) else t

/-- The base of a component, with its qualifier. -/
def baseText (qualified : Bool) (base : Text) : Text :=
  if qualified then "React.".toList ++ base else base

mutual
/-- The text of an expression. -/
def print : TypeExpr → Text
  | .keyword n => n
  | .named n => n
  | .literal value => value.text
  | .array element => wrap element.isWide (print element) ++ ['[', ']']
  | .object members => Module.bracedText (printMembers members)
  | .union members => Text.join " | ".toList (printOperands members)
  | .function params returns =>
    Module.arrowText [] (Text.join ", ".toList (printParams params)) (print returns)
  | .component qualified base props =>
    baseText qualified base ++ '<' :: (print props ++ ['>'])
/-- The texts of members. -/
def printMembers : List (Property TypeExpr) → List Text
  | [] => []
  | p :: ps => Member.text ⟨p.name, print p.type, p.optional⟩ :: printMembers ps
/-- The texts of the members of a union. -/
def printOperands : List TypeExpr → List Text
  | [] => []
  | e :: es => wrap e.isWide (print e) :: printOperands es
/-- The texts of parameters. -/
def printParams : List (Param TypeExpr) → List Text
  | [] => []
  | p :: ps => Module.paramText p.name false (print p.type) :: printParams ps
end

mutual
/-- The type node of an expression. -/
def node : TypeExpr → TypeNode
  | .keyword n => .plain n (.primitive n)
  | .named n => .plain n (.verbatim n)
  | .literal value => .plain value.text (.literal value.text)
  | .array element => .plain (print (.array element)) (.array (node element))
  | .object members => .plain (print (.object members)) (.object (nodeMembers members) none)
  | .union members => .plain (print (.union members)) (.union (nodes members))
  | .function params returns =>
    .plain (print (.function params returns)) (.function (nodeParams params) (node returns))
  | .component qualified base props =>
    .plain (print (.component qualified base props)) (.component (node props))
/-- The nodes of members. -/
def nodeMembers : List (Property TypeExpr) → List (Property TypeNode)
  | [] => []
  | p :: ps => ⟨p.name, node p.type, p.optional⟩ :: nodeMembers ps
/-- The nodes of several expressions. -/
def nodes : List TypeExpr → List TypeNode
  | [] => []
  | e :: es => node e :: nodes es
/-- The nodes of parameters. -/
def nodeParams : List (Param TypeExpr) → List (Param TypeNode)
  | [] => []
  | p :: ps => ⟨p.name, node p.type⟩ :: nodeParams ps
end

/-- An expression as the element of an array or a member of a union. -/
def operand (e : TypeExpr) : Text := wrap e.isWide (print e)

/-- A member as it is written. -/
def written (p : Property TypeExpr) : Member := ⟨p.name, print p.type, p.optional⟩

theorem printMembers_eq (ms : List (Property TypeExpr)) :
    printMembers ms = (ms.map written).map (·.text) := by
  induction ms with
  | nil => rfl
  | cons p ms ih =>
    rw [printMembers, ih]
    rfl

theorem printOperands_eq (es : List TypeExpr) : printOperands es = es.map operand := by
  induction es with
  | nil => rfl
  | cons e es ih => rw [printOperands, ih, List.map_cons, operand]

/-- A parameter as it is written. -/
def writtenParam (p : Param TypeExpr) : Text := Module.paramText p.name false (print p.type)

theorem printParams_eq (ps : List (Param TypeExpr)) : printParams ps = ps.map writtenParam := by
  induction ps with
  | nil => rfl
  | cons p ps ih => rw [printParams, ih, List.map_cons, writtenParam]

theorem print_array (e : TypeExpr) : print (.array e) = e.operand ++ ['[', ']'] := by
  rw [print, operand]

theorem print_object (ms : List (Property TypeExpr)) :
    print (.object ms) = Module.bracedText ((ms.map written).map (·.text)) := by
  rw [print, printMembers_eq]

theorem print_union (ms : List TypeExpr) :
    print (.union ms) = Text.join " | ".toList (ms.map operand) := by
  rw [print, printOperands_eq]

theorem print_function (ps : List (Param TypeExpr)) (r : TypeExpr) :
    print (.function ps r) =
      Module.arrowText [] (Text.join ", ".toList (ps.map writtenParam)) r.print := by
  rw [print, printParams_eq]

theorem print_component (q : Bool) (base : Text) (e : TypeExpr) :
    print (.component q base e) = baseText q base ++ '<' :: (e.print ++ ['>']) := by
  rw [print]

theorem node_object (ms : List (Property TypeExpr)) :
    node (.object ms) = .plain (print (.object ms))
      (.object (ms.map fun p => ⟨p.name, p.type.node, p.optional⟩) none) := by
  have hms : ∀ ms, nodeMembers ms = ms.map fun p => ⟨p.name, node p.type, p.optional⟩ := by
    intro ms
    induction ms with
    | nil => rfl
    | cons p ms ih => rw [nodeMembers, ih, List.map_cons]
  rw [node, hms]

theorem node_union (ms : List TypeExpr) :
    node (.union ms) = .plain (print (.union ms)) (.union (ms.map node)) := by
  have hms : ∀ ms, nodes ms = ms.map node := by
    intro ms
    induction ms with
    | nil => rfl
    | cons m ms ih => rw [nodes, ih, List.map_cons]
  rw [node, hms]

theorem node_function (ps : List (Param TypeExpr)) (r : TypeExpr) :
    node (.function ps r) = .plain (print (.function ps r))
      (.function (ps.map fun p => ⟨p.name, p.type.node⟩) r.node) := by
  have hps : ∀ ps, nodeParams ps = ps.map fun p => ⟨p.name, node p.type⟩ := by
    intro ps
    induction ps with
    | nil => rfl
    | cons p ps ih => rw [nodeParams, ih, List.map_cons]
  rw [node, hps]

end TypeExpr

/-! ## Printed texts -/

/-- What the text of every expression is like. -/
structure Printed (t : Text) : Prop where
  settled : Settled t
  clear : clearFrom [';', ',', '\n'] .start t = true
  trimmed : trim t = t
  nonempty : t ≠ []
  word : t.takeWhile isNameChar ≠ "readonly".toList

/-- A text that may stand as an element or as a member of a union: neither a bar nor an equals sign
stands at its top level. -/
structure Operand (t : Text) : Prop extends Printed t where
  flat : clearFrom ['|', '='] .start t = true

theorem Operand.clear_bar {t : Text} (h : Operand t) : clearFrom ['|'] .start t = true :=
  clearFrom_mono (by decide) h.flat

theorem Operand.clear_equals {t : Text} (h : Operand t) : clearFrom ['='] .start t = true :=
  clearFrom_mono (by decide) h.flat

theorem takeWhile_append_of_not {p : Char → Bool} {c : Char} (hc : p c = false) (t u : Text) :
    (t ++ c :: u).takeWhile p = t.takeWhile p := by
  induction t with
  | nil => rw [List.nil_append, List.takeWhile_cons_of_neg (by simp [hc]), List.takeWhile_nil]
  | cons d t ih =>
    rw [List.cons_append, List.takeWhile_cons, List.takeWhile_cons, ih]

theorem Printed.after?_readonly {t : Text} (h : Printed t) :
    Text.after? "readonly ".toList t = none := by
  refine Option.eq_none_iff_forall_not_mem.mpr fun rest hrest => h.word ?_
  have happ : "readonly ".toList ++ rest = t := List.isPrefixOf?_eq_some_iff_append_eq.mp hrest
  have hword : ("readonly".toList ++ ' ' :: rest).takeWhile isNameChar = "readonly".toList := by
    rw [takeWhile_append_of_not (by decide)]
    decide
  rw [← happ]
  exact hword

theorem word_of_head {t : Text} (h : t.head? ≠ some 'r') :
    t.takeWhile isNameChar ≠ "readonly".toList := by
  intro hword
  cases t with
  | nil => cases hword
  | cons c t =>
    rw [List.takeWhile_cons] at hword
    split at hword
    · exact h (congrArg some (List.cons.inj hword).1)
    · cases hword

/-- **Any group may stand anywhere.** -/
theorem operand_group {o : Char} (ho : isOpener o = true) {inner : Text} {c : Char}
    (h : ClosesBehind .start inner c) : Operand (o :: (inner ++ [c])) := by
  have hopener : isBlank o = false ∧ o ≠ 'r' ∧ List.contains [';', ',', '\n'] o = false ∧
      List.contains ['|', '='] o = false := by
    simp only [isOpener, Bool.or_eq_true, decide_eq_true_eq] at ho
    obtain ((rfl | rfl) | rfl) | rfl := ho <;> decide
  have hcloser : isBlank c = false := by
    have hc := h.isCloser
    simp only [isCloser, Bool.or_eq_true, decide_eq_true_eq] at hc
    obtain ((rfl | rfl) | rfl) | rfl := hc <;> decide
  obtain ⟨hb, hr, hd, hf⟩ := hopener
  refine ⟨⟨settled_group ho h, clearFrom_group ho h hd false, Text.trim_between hb hcloser inner,
    by simp, word_of_head fun hh => hr (Option.some.inj hh)⟩, clearFrom_group ho h hf false⟩

/-- Text in parentheses may stand anywhere. -/
theorem operand_parenthesized {t : Text} (h : Nested t) : Operand ('(' :: (t ++ [')'])) :=
  operand_group rfl (h.closesBehind rfl fun h => by cases h)

/-- What may follow a printed text so that the whole is printed. -/
theorem Printed.append {t u : Text} {c : Char} (ht : Printed t) (hu : Settled u)
    (hclear : clearFrom [';', ',', '\n'] .start u = true) (hhead : u.head? = some c)
    (hc : isNameChar c = false) (hlast : ∀ d, u.getLast? = some d → isBlank d = false) :
    Printed (t ++ u) := by
  cases u with
  | nil => cases hhead
  | cons x u =>
    cases hhead
    refine ⟨ht.settled.append hu, ht.settled.clear_append ht.clear hclear, ?_, by simp, ?_⟩
    · refine Text.trim_eq_self (fun d hd => ?_) (fun d hd => ?_)
      · cases t with
        | nil => exact absurd rfl ht.nonempty
        | cons y t => exact (Text.trim_eq_self_iff.mp ht.trimmed).1 d hd
      · rw [List.getLast?_append_of_ne_nil _ (by simp)] at hd
        exact hlast d hd
    · rw [takeWhile_append_of_not hc]
      exact ht.word

theorem Printed.getLast? {t : Text} (h : Printed t) :
    ∀ c, t.getLast? = some c → isBlank c = false :=
  (Text.trim_eq_self_iff.mp h.trimmed).2

/-- Printed texts with bars between them. -/
theorem printed_join : ∀ {ts : List Text}, ts ≠ [] → (∀ t ∈ ts, Printed t) →
    Printed (Text.join " | ".toList ts)
  | [], hne, _ => absurd rfl hne
  | [t], _, h => h t List.mem_cons_self
  | t :: u :: ts, _, h => by
    have ih : Printed (Text.join " | ".toList (u :: ts)) :=
      printed_join (by simp) fun x hx => h x (List.mem_cons_of_mem t hx)
    have hsep : Settled " | ".toList := settled_plain (by decide) (by decide)
    rw [Text.join, List.append_assoc]
    refine (h t List.mem_cons_self).append (hsep.append ih.settled)
      (hsep.clear_append (by decide) ih.clear) rfl (by decide) fun d hd => ?_
    rw [List.getLast?_append_of_ne_nil _ ih.nonempty] at hd
    exact ih.getLast? d hd

/-! ## Words and literals -/

theorem toNat_le_of_le {c d : Char} (h : c ≤ d) : c.toNat ≤ d.toNat := h

theorem isNameChar_of_isNameStart {c : Char} (h : isNameStart c = true) : isNameChar c = true := by
  simp only [isNameStart, Text.isAsciiLetter, Bool.or_eq_true, Bool.and_eq_true,
    decide_eq_true_eq] at h
  rcases h with ((⟨h1, h2⟩ | ⟨h1, h2⟩) | rfl) | rfl
  · have hlt : c.toNat < 128 := Nat.lt_of_le_of_lt (toNat_le_of_le h2) (by decide)
    simp [isNameChar, Text.isWordChar, Text.isAsciiLetter, hlt, h1, h2]
  · have hlt : c.toNat < 128 := Nat.lt_of_le_of_lt (toNat_le_of_le h2) (by decide)
    simp [isNameChar, Text.isWordChar, Text.isAsciiLetter, hlt, h1, h2]
  · decide
  · decide

theorem isNameChar_of_digit {c : Char} (h : '0' ≤ c ∧ c ≤ '9') : isNameChar c = true := by
  have hlt : c.toNat < 128 := Nat.lt_of_le_of_lt (toNat_le_of_le h.2) (by decide)
  simp [isNameChar, Text.isWordChar, hlt, h.1, h.2]

/-- A character of a word, a dotted name or a signed integer. -/
def isWordy (c : Char) : Bool := TypeNode.isDottedChar c || c = '-'

/-- **A word may stand anywhere**, unless it is `readonly`. -/
theorem operand_word {t : Text} (h : ∀ c ∈ t, isWordy c = true) (hne : t ≠ [])
    (hw : t.takeWhile isNameChar ≠ "readonly".toList) : Operand t := by
  have hsettled : Settled t := settled_of_class h (by decide) (by decide)
  have hclear : clearFrom [';', ',', '\n'] .start t = true := clearFrom_of_class h (by decide) _
  have htrim : trim t = t := trim_of_class h (by decide +kernel)
  exact ⟨⟨hsettled, hclear, htrim, hne, hw⟩, clearFrom_of_class h (by decide) _⟩

theorem operand_keyword {n : Text} (h : n ∈ primitiveNames) : Operand n := by
  have hall : ∀ n ∈ primitiveNames, (∀ c ∈ n, isWordy c = true) ∧ n ≠ [] ∧ n.head? ≠ some 'r' := by
    decide
  obtain ⟨hc, hne, hr⟩ := hall n h
  exact operand_word hc hne (word_of_head hr)

theorem operand_named {n : Text} (h : TypeNode.isIdentifier n = true)
    (hr : n ∉ TypeExpr.reserved) : Operand n := by
  refine operand_word (fun c hc => ?_) (TypeNode.ne_nil_of_isIdentifier h) fun hw => hr ?_
  · simp [isWordy, TypeNode.dottedChars_of_isIdentifier h c hc]
  · have hall : n.takeWhile isNameChar = n := by
      cases n with
      | nil => rfl
      | cons c cs =>
        obtain ⟨hc, hcs⟩ := TypeNode.isIdentifier_cons.mp h
        rw [List.takeWhile_cons_of_pos (isNameChar_of_isNameStart hc),
          List.takeWhile_eq_self_iff.mpr hcs]
    rw [hall] at hw
    rw [hw]
    decide

theorem closedBy_concat {q : Char} {body : Text} (hq : q ∉ body) (hb : '\\' ∉ body) :
    closedBy q (body ++ [q]) = true := by
  induction body with
  | nil => simp [closedBy]
  | cons c body ih =>
    rw [List.mem_cons, not_or] at hq hb
    have hih := ih hq.2 hb.2
    cases body with
    | nil =>
      simp only [List.nil_append, List.cons_append, closedBy, if_neg (Ne.symm hb.1),
        if_neg (Ne.symm hq.1), decide_true]
    | cons d body =>
      rw [List.cons_append, List.cons_append, closedBy, if_neg (Ne.symm hb.1),
        if_neg (Ne.symm hq.1)]
      exact hih

theorem isStringLiteral_text {q : Char} {body : Text} (h : (LiteralExpr.string q body).WellFormed) :
    isStringLiteral (LiteralExpr.string q body).text = true := by
  obtain ⟨hq, hbody, hback⟩ := h
  simp only [LiteralExpr.text, isStringLiteral, closedBy_concat hbody hback, Bool.and_true,
    Bool.or_eq_true, decide_eq_true_eq]
  exact hq

/-- The characters of an integer, and its first. -/
theorem chars_of_integer {negative : Bool} {digits : Text}
    (h : (LiteralExpr.integer negative digits).WellFormed) :
    (∀ c ∈ (LiteralExpr.integer negative digits).text, isWordy c = true) ∧
      ∃ c, (LiteralExpr.integer negative digits).text.head? = some c ∧
        (c = '-' ∨ '0' ≤ c ∧ c ≤ '9') := by
  obtain ⟨hne, hd⟩ := h
  have hdigit : ∀ c ∈ digits, isWordy c = true := fun c hc => by
    simp [isWordy, TypeNode.isDottedChar, isNameChar_of_digit (hd c hc)]
  cases negative with
  | true =>
    refine ⟨fun c hc => ?_, '-', rfl, Or.inl rfl⟩
    rcases List.mem_cons.mp hc with rfl | hc
    · rfl
    · exact hdigit c hc
  | false =>
    cases digits with
    | nil => exact absurd rfl hne
    | cons c cs => exact ⟨hdigit, c, rfl, Or.inr (hd c List.mem_cons_self)⟩

theorem operand_literal {l : LiteralExpr} (h : l.WellFormed) : Operand l.text := by
  cases l with
  | truth value =>
    have hall : ∀ b, (∀ c ∈ (LiteralExpr.truth b).text, isWordy c = true) ∧
        (LiteralExpr.truth b).text ≠ [] ∧ (LiteralExpr.truth b).text.head? ≠ some 'r' := by decide
    obtain ⟨hc, hne, hr⟩ := hall value
    exact operand_word hc hne (word_of_head hr)
  | integer negative digits =>
    obtain ⟨hc, d, hd, hcase⟩ := chars_of_integer h
    refine operand_word hc (fun hnil => ?_) (word_of_head fun hr => ?_)
    · rw [hnil] at hd
      cases hd
    · rw [hd] at hr
      cases hr
      rcases hcase with hcase | hcase
      · exact absurd hcase (by decide)
      · exact absurd hcase (by decide)
  | string q body =>
    have hlit := isStringLiteral_text h
    obtain ⟨hq, hbody, hback⟩ := h
    have hquote : isQuote q = true ∧ isBlank q = false ∧ q ≠ 'r' := by
      rcases hq with rfl | rfl <;> decide
    refine ⟨⟨settled_literal hquote.1 hbody hback, TypeNode.clearFrom_of_isStringLiteral hlit,
      Text.trim_between hquote.2.1 hquote.2.1 body, by simp [LiteralExpr.text],
      word_of_head fun hr => hquote.2.2 (Option.some.inj hr)⟩,
      TypeNode.clearFrom_of_isStringLiteral hlit⟩

/-! ## Constructs -/

/-- A group behind an operand makes an operand. -/
theorem Operand.append_group {t : Text} (ht : Operand t) {o : Char} (ho : isOpener o = true)
    {inner : Text} {c : Char} (h : ClosesBehind .start inner c) :
    Operand (t ++ o :: (inner ++ [c])) := by
  have hg := operand_group ho h
  have hname : isNameChar o = false := by
    simp only [isOpener, Bool.or_eq_true, decide_eq_true_eq] at ho
    obtain ((rfl | rfl) | rfl) | rfl := ho <;> decide
  exact ⟨ht.toPrinted.append hg.settled hg.clear rfl hname hg.getLast?,
    ht.settled.clear_append ht.flat hg.flat⟩

/-- A member of a printed type is printable, and its type is on one line. -/
theorem Printed.printable {m : Member} (hn : TypeNode.isIdentifier m.name = true)
    (h : Printed m.type) :
    TypeNode.Printable m ∧ clearFrom ['\n'] .start m.type = true :=
  ⟨⟨hn, h.trimmed, h.nonempty, h.settled.nested, clearFrom_mono (by decide) h.clear⟩,
    clearFrom_mono (by decide) h.clear⟩

theorem printed_arrowText {params returns : Text} (hp : Nested params) (hr : Printed returns) :
    Printed (Module.arrowText [] params returns) := by
  have harrow : Settled " => ".toList := ⟨by decide, by decide⟩
  have htext : Module.arrowText [] params returns =
      ('(' :: (params ++ [')'])) ++ (" => ".toList ++ returns) := by
    show [] ++ '(' :: params ++ [')', ' ', '=', '>', ' '] ++ returns =
      ('(' :: (params ++ [')'])) ++ ([' ', '=', '>', ' '] ++ returns)
    simp
  rw [htext]
  refine (operand_parenthesized hp).append (harrow.append hr.settled)
    (harrow.clear_append (by decide) hr.clear) rfl (by decide) fun d hd => ?_
  rw [List.getLast?_append_of_ne_nil _ hr.nonempty] at hd
  exact hr.getLast? d hd

namespace TypeExpr

theorem operand_baseText {base : Text} (h : base ∈ TypeNode.componentBases) (q : Bool) :
    Operand (baseText q base) := by
  have hall : ∀ q, ∀ b ∈ TypeNode.componentBases, (∀ c ∈ baseText q b, isWordy c = true) ∧
      baseText q b ≠ [] ∧ (baseText q b).head? ≠ some 'r' := by decide
  obtain ⟨hc, hne, hr⟩ := hall q base h
  exact operand_word hc hne (word_of_head hr)

/-- An expression as an operand, where it has parentheses if it needs them. -/
theorem operand_operand {e : TypeExpr} (h : Printed e.print)
    (hf : e.isWide = false → clearFrom ['|', '='] .start e.print = true) : Operand e.operand := by
  unfold operand wrap
  by_cases hw : e.isWide = true
  · rw [if_pos hw]
    exact operand_parenthesized h.settled.nested
  · rw [if_neg hw]
    exact ⟨h, hf (by simpa using hw)⟩

/-- **The text of a well-formed expression**, by induction on the expression. -/
theorem printed_print {e : TypeExpr} (h : e.WellFormed) :
    Printed e.print ∧ (e.isWide = false → clearFrom ['|', '='] .start e.print = true) := by
  induction h with
  | keyword h =>
    rw [print]
    exact ⟨(operand_keyword h).toPrinted, fun _ => (operand_keyword h).flat⟩
  | named h hr =>
    rw [print]
    exact ⟨(operand_named h hr).toPrinted, fun _ => (operand_named h hr).flat⟩
  | literal h =>
    rw [print]
    exact ⟨(operand_literal h).toPrinted, fun _ => (operand_literal h).flat⟩
  | @array e _ ih =>
    have hb : ClosesBehind .start [] ']' := nested_nil.closesBehind rfl fun h => by cases h
    have hop := (operand_operand ih.1 ih.2).append_group (o := '[') rfl hb
    rw [print_array]
    exact ⟨hop.toPrinted, fun _ => hop.flat⟩
  | @object ms hn _ ih =>
    have hms : ∀ m ∈ ms.map written, TypeNode.Printable m := by
      intro m hm
      obtain ⟨p, hp, rfl⟩ := List.mem_map.mp hm
      exact (Printed.printable (m := written p) (hn p hp) (ih p hp).1).1
    obtain ⟨inside, ht, hin, -⟩ := TypeNode.bracedText_eq hms
    have hop : Operand (print (.object ms)) := by
      rw [print_object, ht]
      exact operand_group rfl (hin.closesBehind rfl fun h => by cases h)
    exact ⟨hop.toPrinted, fun _ => hop.flat⟩
  | @union ms htwo _ _ ih =>
    refine ⟨?_, fun hw => by cases hw⟩
    rw [print_union]
    refine printed_join (fun hnil => ?_) fun t ht => ?_
    · rw [List.map_eq_nil_iff.mp hnil] at htwo
      cases htwo
    · obtain ⟨m, hm, rfl⟩ := List.mem_map.mp ht
      exact (operand_operand (ih m hm).1 (ih m hm).2).toPrinted
  | @function ps r hn _ _ ih ihr =>
    refine ⟨?_, fun hw => by cases hw⟩
    rw [print_function]
    refine printed_arrowText (nested_join (nested_plain (by decide)) fun t ht => ?_) ihr.1
    obtain ⟨p, hp, rfl⟩ := List.mem_map.mp ht
    exact TypeNode.nested_text (m := ⟨p.name, print p.type, false⟩)
      (Printed.printable (hn p hp) (ih p hp).1).1
  | @component q base e hb _ ih =>
    have hop := (operand_baseText hb q).append_group (o := '<') rfl
      (ih.1.settled.closesBehind (c := '>') rfl)
    rw [print_component]
    exact ⟨hop.toPrinted, fun _ => hop.flat⟩

theorem WellFormed.operand {e : TypeExpr} (h : e.WellFormed) : Operand e.operand :=
  operand_operand (printed_print h).1 (printed_print h).2

end TypeExpr

end ExportSchema
