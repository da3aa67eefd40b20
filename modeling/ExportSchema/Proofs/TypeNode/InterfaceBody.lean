import ExportSchema.Proofs.Text.Split
import ExportSchema.Proofs.TypeNode.Signature

/-!
# The body of an interface as an object type

The members of an interface are read from the nodes of its body. The same body, braces included, can
be read as the text of an object type. Both find the same names and marks, both give a property the
type behind its colon, and both take a method for a function. They part over accessors: by its node a
getter is a function without parameters, by its text it is a property of the type that it returns.

* `Form`: which construct a type is.
* `Signature`: a property, a method or a getter as it is written.
* `Signature.Stands`: a node of the syntax tree is the node of a signature.
* `IsBody`: the node and the text of a body, with members separated in any style.

Results:
* `Signature.member?_text`: what a signature reads as by its text.
* `Signature.Stands.member`: what it reads as by its node.
* `body_reads_alike_iff`: both readings of a body agree iff every getter returns a function.
-/

namespace ExportSchema.TypeNode

open Text (trim isBlank)
open Lexeme ExportSchema.Bracket

/-! ## Forms -/

/-- Which construct a type is, whatever its parts are. -/
inductive Form where
  | primitive
  | literal
  | verbatim
  | array
  | object
  | union
  | function
  | component
  deriving DecidableEq, Repr

/-- The form of a type. -/
def form (n : TypeNode) : Form :=
  match n.shape with
  | .primitive _ => .primitive
  | .literal _ => .literal
  | .verbatim _ => .verbatim
  | .array _ => .array
  | .object _ _ => .object
  | .union _ => .union
  | .function _ _ => .function
  | .component _ => .component

theorem form_arrowText {inside : Text} (h : Nested inside) (returns : Text) :
    (parse (Module.arrowText [] inside returns)).form = .function := by
  rw [parse_arrowText .none h]
  rfl

/-! ## Signatures -/

/-- A member of an interface body: `n: T`, `n?: T`, `n(params): T`, `n?(params): T` or
`get n(): T`. -/
inductive Signature where
  | property (name : Text) (optional : Bool) (type : Text)
  | method (name : Text) (optional : Bool) (params type : Text)
  | getter (name type : Text)
  deriving DecidableEq, Repr

namespace Signature

/-- The name that is written, without a mark or a keyword. -/
def name : Signature → Text
  | property name _ _ | method name _ _ _ | getter name _ => name

/-- Is there a question mark behind the name? A getter has none. -/
def optional : Signature → Bool
  | property _ optional _ | method _ optional _ _ => optional
  | getter _ _ => false

/-- The type behind the colon. -/
def type : Signature → Text
  | property _ _ type | method _ _ _ type | getter _ type => type

/-- The text between the parentheses. -/
def params : Signature → Text
  | method _ _ params _ => params
  | property _ _ _ | getter _ _ => []

/-- Is `get` written before the name? -/
def isGetter : Signature → Bool
  | getter _ _ => true
  | property _ _ _ | method _ _ _ _ => false

/-- The name of an accessor, with the keyword before it. -/
def getStem (name : Text) : Text := ['g', 'e', 't', ' '] ++ name

/-- What stands before the colon. -/
def front : Signature → Text
  | property name optional _ => markedName name optional
  | method name optional params _ => markedName name optional ++ '(' :: (params ++ [')'])
  | getter name _ => getStem name ++ '(' :: ([] ++ [')'])

/-- The signature as it is written. -/
def text (s : Signature) : Text := s.front ++ ':' :: ' ' :: s.type

/-- The name is a name, the parameters are properly nested, and the type is a properly nested text on
one line, with neither semicolon nor comma at its top level. -/
structure Printable (s : Signature) : Prop where
  name : isLabel s.name = true
  name_ne : s.name ≠ []
  params : Nested s.params
  trimmed : trim s.type = s.type
  type_ne : s.type ≠ []
  nested : Nested s.type
  clear : clearFrom ";,\n".toList .start s.type = true

instance (s : Signature) : Decidable s.Printable :=
  decidable_of_iff (isLabel s.name = true ∧ s.name ≠ [] ∧ Nested s.params ∧
    trim s.type = s.type ∧ s.type ≠ [] ∧ Nested s.type ∧
    clearFrom ";,\n".toList .start s.type = true)
    ⟨fun ⟨a, b, c, d, e, f, g⟩ => ⟨a, b, c, d, e, f, g⟩,
      fun ⟨a, b, c, d, e, f, g⟩ => ⟨a, b, c, d, e, f, g⟩⟩

/-! ## Before the colon -/

/-- A character before the parentheses. -/
def isStemChar (c : Char) : Bool := isMarkedChar c || c = ' '

/-- What stands before the parentheses of a method or a getter. -/
structure Stem (stem : Text) : Prop where
  chars : ∀ c ∈ stem, isStemChar c = true
  trimmed : trim stem = stem
  ne : stem ≠ []

theorem stem_markedName {name : Text} (h : isLabel name = true) (hne : name ≠ []) (optional : Bool) :
    Stem (markedName name optional) := by
  refine ⟨fun c hc => ?_, trim_markedName h optional, fun hnil => ?_⟩
  · simp [isStemChar, markedChars h optional c hc]
  · exact hne (List.append_eq_nil_iff.mp hnil).1

theorem stem_get {name : Text} (h : isLabel name = true) (hne : name ≠ []) :
    Stem (getStem name) := by
  refine ⟨fun c hc => ?_, Text.trim_eq_self (fun c hc => ?_) fun c hc => ?_, by simp [getStem]⟩
  · rcases List.mem_append.mp hc with hc | hc
    · exact (by decide : ∀ c ∈ ['g', 'e', 't', ' '], isStemChar c = true) c hc
    · simp [isStemChar, isMarkedChar, labelChars h c hc]
  · cases hc
    rfl
  · unfold getStem at hc
    rw [List.getLast?_append_of_ne_nil _ hne] at hc
    exact Text.isBlank_of_class (p := isLabelChar) (by decide +kernel)
      (labelChars h c (List.mem_of_getLast? hc))

theorem Stem.front {stem : Text} (h : Stem stem) {inside : Text} (hin : Nested inside) :
    Front (stem ++ '(' :: (inside ++ [')'])) :=
  front_call (settled_of_class h.chars (by decide) (by decide))
    (clearFrom_of_class h.chars (by decide) .start) (Text.trim_eq_self_iff.mp h.trimmed).1 hin

variable {s : Signature}

theorem Printable.front (h : s.Printable) : Front s.front := by
  cases s with
  | property name optional type => exact front_markedName h.name optional
  | method name optional params type =>
    exact (stem_markedName h.name h.name_ne optional).front h.params
  | getter name type => exact (stem_get h.name h.name_ne).front nested_nil

/-! ## Reading the text -/

theorem Printable.lineType (h : s.Printable) : LineType s.type :=
  ⟨h.nested, h.clear, h.trimmed, h.type_ne⟩

theorem Printable.nested_text (h : s.Printable) : Nested s.text := h.front.nested_line h.lineType

/-- What the text of a signature says about its type. -/
def part : Signature → Part
  | property _ _ type | getter _ type => .text type
  | method _ _ inside type =>
    .method ('(' :: (inside ++ [')']) ++ " => ".toList ++ type) (TypeNode.params inside) type

/-- The name and the type of a signature are on both sides of its first colon. -/
theorem Printable.cutAt?_text (h : s.Printable) :
    cutAt? [':'] s.text = some (s.front, ' ' :: s.type) := h.front.cutAt?_line s.type

theorem takeWhile_of_class {p : Char → Bool} {t : Text} (h : ∀ c ∈ t, p c = true) {x : Char}
    (hx : p x = false) : t.takeWhile (· ≠ x) = t := by
  refine List.takeWhile_eq_self_iff.mpr fun c hc => ?_
  have hne : c ≠ x := fun he => not_mem_of_class h hx (he ▸ hc)
  simpa using hne

/-- What stands before the parentheses and the parentheses themselves are told apart. -/
theorem Stem.member?_call {stem inside type : Text} (hstem : Stem stem) (hin : Nested inside)
    (htype : trim type = type) (hnamed : Named (stem ++ '(' :: (inside ++ [')']))) {t : Text}
    (ht : cutAt? [':'] t = some (stem ++ '(' :: (inside ++ [')']), ' ' :: type)) :
    member? t =
      (methodMember? stem ('(' :: (inside ++ [')'])) type).map Member.property := by
  have hparen : '(' ∉ stem := not_mem_of_class hstem.chars (by decide)
  have hfront := (hstem.front hin).trimmed
  rw [TypeNode.member?_call ht (by rwa [hfront]) (by rw [hfront]; simp), hfront,
    Text.takeWhile_append_sep hparen, Text.dropWhile_append_sep hparen, hstem.trimmed,
    Text.trim_between (a := '(') (b := ')') rfl rfl inside, Text.trim_cons (c := ' ') rfl, htype]

theorem trimStart_of_isLabel {name : Text} (h : isLabel name = true) :
    Text.trimStart name = name := by
  rw [Text.trimStart_eq]
  refine List.dropWhile_eq_self_iff.mpr fun hlt hb => ?_
  have hc := labelChars h _ (List.getElem_mem hlt)
  rw [Text.isBlank_of_class (p := isLabelChar) (by decide +kernel) hc] at hb
  cases hb

/-- A name is no accessor: no blank stands behind its first letters. -/
theorem accessor?_of_isLabel {name : Text} (h : isLabel name = true) : accessor? name = none := by
  have hrest : ∀ word rest, Text.after? word name = some rest → Text.trimStart rest = rest := by
    intro word rest hr
    have happ : word ++ rest = name := List.isPrefixOf?_eq_some_iff_append_eq.mp hr
    refine trimStart_of_isLabel (List.all_eq_true.mpr fun c hc => ?_)
    exact labelChars h c (happ ▸ List.mem_append_right word hc)
  unfold accessor?
  cases hget : Text.after? "get".toList name with
  | some rest => simp [hrest _ _ hget]
  | none =>
    cases hset : Text.after? "set".toList name with
    | some rest => simp [hrest _ _ hset]
    | none => rfl

theorem accessor?_get {name : Text} (h : isLabel name = true) (hne : name ≠ []) :
    accessor? (getStem name) = some (true, name) := by
  have hafter : Text.after? "get".toList (getStem name) = some (' ' :: name) := rfl
  have hstart : Text.trimStart (' ' :: name) = name := by
    rw [Text.trimStart_eq, List.dropWhile_cons_of_pos (by decide), ← Text.trimStart_eq,
      trimStart_of_isLabel h]
  have hline : '\n' ∉ name := not_mem_of_class (labelChars h) (by decide)
  have hlast : name.getLast? ≠ some '\n' := fun hl => hline (List.mem_of_getLast? hl)
  unfold accessor?
  rw [hafter]
  simp [hstart, hne, hlast, hline]

/-- Type parameters do not count, and the parameters have to be one group. -/
theorem methodMember?_typeParams {name : Text} (h : isLabel name = true) (hne : name ≠ [])
    (optional : Bool) {lead : Text} (hlead : ∀ c, lead.head? = some c → c = '<')
    (signature type : Text) :
    methodMember? (trim (markedName name optional ++ lead)) signature type =
      (enclosed? '(' signature).map fun inside =>
        ⟨name, .method (signature ++ " => ".toList ++ type) (TypeNode.params inside) type,
          optional⟩ := by
  have hname : (trim (markedName name optional ++ lead)).takeWhile (· ≠ '<') =
      markedName name optional := by
    have hself := takeWhile_of_class (markedChars h optional) (x := '<') (by decide)
    have htrim := trim_markedName h optional
    cases lead with
    | nil => rw [List.append_nil, htrim, hself]
    | cons c lead =>
      obtain rfl := hlead c rfl
      obtain ⟨rest, hrest, -⟩ := Text.trim_cons_eq (c := '<') rfl lead
      rw [Text.trim_append (Text.trim_eq_self_iff.mp htrim).1 rfl rfl, hrest,
        List.takeWhile_append, hself, if_pos rfl, List.takeWhile_cons_of_neg (by simp),
        List.append_nil]
  unfold methodMember?
  simp only [hname, trim_markedName h, splitOptional_markedName h, unquote_of_isLabel h hne,
    accessor?_of_isLabel h]
  cases enclosed? '(' signature <;> rfl

theorem methodMember?_markedName {name : Text} (h : isLabel name = true) (hne : name ≠ [])
    (optional : Bool) {inside : Text} (hin : Nested inside) (type : Text) :
    methodMember? (markedName name optional) ('(' :: (inside ++ [')'])) type =
      some ⟨name, (method name optional inside type).part, optional⟩ := by
  have hgroup : enclosed? '(' ('(' :: (inside ++ [')'])) = some inside :=
    (enclosed?_eq_some_iff rfl).mpr ⟨')', rfl, hin.closesBehind rfl fun h => by cases h⟩
  have hlead : ∀ c, ([] : Text).head? = some c → c = '<' := fun c hc => by cases hc
  have hmember := methodMember?_typeParams h hne optional hlead ('(' :: (inside ++ [')'])) type
  rw [List.append_nil, trim_markedName h, hgroup] at hmember
  exact hmember

theorem methodMember?_get {name : Text} (h : isLabel name = true) (hne : name ≠ []) (type : Text) :
    methodMember? (getStem name) ('(' :: ([] ++ [')'])) type =
      some ⟨name, .text type, false⟩ := by
  have hstem := stem_get h hne
  have hangle := takeWhile_of_class hstem.chars (x := '<') (by decide)
  have hlast : (getStem name).getLast? ≠ some '?' := by
    unfold getStem
    rw [List.getLast?_append_of_ne_nil _ hne]
    exact getLast?_ne_of_isLabel h
  have hsplit : splitOptional (getStem name) = (getStem name, false) := by
    have := splitOptional_mark hstem.trimmed hlast false
    rwa [markedName, if_neg Bool.false_ne_true, List.append_nil] at this
  have htrim : trim name = name := trim_of_class (labelChars h) (by decide +kernel)
  have hgroup : enclosed? '(' ('(' :: ([] ++ [')'])) = some [] := rfl
  have hquote : unquote (getStem name) = getStem name := by
    show unquote ('g' :: 'e' :: 't' :: ' ' :: name) = _
    rw [unquote, if_neg (by rintro ⟨hc | hc, -⟩ <;> cases hc)]
    · rfl
    · simp
  unfold methodMember?
  simp only [hangle, hstem.trimmed, hsplit, hquote, hgroup, accessor?_get h hne, htrim,
    unquote_of_isLabel h hne]
  rfl

/-- **What a signature reads as by its text.** -/
theorem Printable.member?_text (h : s.Printable) :
    member? s.text = some (.property ⟨s.name, s.part, s.optional⟩) := by
  cases s with
  | property name optional type =>
    have := TypeNode.member?_text (m := ⟨name, type, optional⟩) h.name h.name_ne h.trimmed
    unfold ExportSchema.Member.text at this
    rwa [markedName_append] at this
  | method name optional inside type =>
    have hnamed := named_markedName h.name h.name_ne optional
      (u := '(' :: (inside ++ [')'])) fun c hc => by cases hc; rfl
    rw [(stem_markedName h.name h.name_ne optional).member?_call h.params h.trimmed hnamed
      h.cutAt?_text, methodMember?_markedName h.name h.name_ne optional h.params]
    rfl
  | getter name type =>
    rw [(stem_get h.name h.name_ne).member?_call nested_nil h.trimmed ⟨rfl, rfl, rfl⟩
      h.cutAt?_text, methodMember?_get h.name h.name_ne]
    rfl

/-- A signature is one member of a body. -/
theorem Printable.members_text (h : s.Printable) :
    members s.text = [.property ⟨s.name, s.part, s.optional⟩] := by
  unfold text
  rw [h.front.members_line h.lineType]
  show (member? s.text).toList = _
  rw [h.member?_text]
  rfl

/-! ## Reading the node -/

end Signature

/-- The node of the annotation `: type`. -/
structure Annotates (mark : Tree) (type : Text) : Prop where
  kind : mark.kind = .typeMark
  text : mark.text = ':' :: ' ' :: type

/-- The node of a parameter: its pattern is properly nested, and so is its type, if it has one. It
has no default value instead of a type. -/
structure ParameterNode (p : Tree) : Prop where
  pattern : ∃ pattern, p.child? .pattern = some pattern ∧ Nested pattern.text
  type : (∃ mark type, p.child? .type = some mark ∧ Annotates mark type ∧ trim type = type ∧
      type ≠ [] ∧ Nested type) ∨
    p.child? .type = none ∧ p.child? .value = none

/-- The node of the parameters `(inside)`. -/
structure ParametersNode (t : Tree) (inside : Text) : Prop where
  text : t.text = '(' :: (inside ++ [')'])
  each : ∀ p ∈ t.namedChildren, Module.isParameter p = true → ParameterNode p

/-- The node of a method or accessor `(inside): type`, without type parameters. -/
structure MethodNode (t : Tree) (inside type : Text) : Prop where
  kind : t.kind = .methodSignature
  typeParams : t.child? .typeParameters = none
  single : t.child? .parameter = none
  params : ∃ ps, t.child? .parameters = some ps ∧ ParametersNode ps inside
  returns : ∃ mark, t.child? .returnType = some mark ∧ Annotates mark type

/-- The node `t` is the node of the signature. -/
structure Signature.Stands (s : Signature) (t : Tree) : Prop where
  name : ∃ n, t.child? .name = some n ∧ n.text = s.name
  mark : t.hasChild .questionMark = s.optional
  form :
    match s with
    | .property _ _ type =>
      t.kind = .propertySignature ∧ ∃ mark, t.child? .type = some mark ∧ Annotates mark type
    | .method _ _ inside type => MethodNode t inside type
    | .getter _ type =>
      MethodNode t [] type ∧ ∃ word ∈ t.children, word.named = false ∧ word.text = "get".toList

variable (infer : Module.Infer (Except Fault))

theorem Annotates.annotationText {mark : Tree} {type : Text} (h : Annotates mark type)
    (ht : trim type = type) (hne : type ≠ []) : Module.annotationText (some mark) = type := by
  have hwhole : trim (':' :: ' ' :: type) = ':' :: ' ' :: type := by
    refine Text.trim_eq_self (fun c hc => ?_) fun c hc => ?_
    · cases hc
      rfl
    · rw [show ':' :: ' ' :: type = [':', ' '] ++ type from rfl,
        List.getLast?_append_of_ne_nil _ hne] at hc
      exact (Text.trim_eq_self_iff.mp ht).2 c hc
  have htype : trim (' ' :: type) = type := by rw [Text.trim_cons rfl, ht]
  unfold Module.annotationText
  simp only [h.kind, h.text, hwhole, htype]
  simp [hne]

theorem ParameterNode.parameterText {p : Tree} (h : ParameterNode p) :
    ∃ u, Module.parameterText infer p = .ok u ∧ Nested u := by
  obtain ⟨pattern, hpattern, hnested⟩ := h.pattern
  have hwritten : ∀ optional {type : Text}, Nested type →
      Nested (Module.paramText pattern.text optional type) := by
    intro optional type htype
    have hmark : Nested (if optional then ['?'] else []) := by cases optional <;> decide
    exact ((hnested.append hmark).append (by decide)).append htype
  unfold Module.parameterText
  rcases h.type with ⟨mark, type, hmark, hann, ht, hne, htype⟩ | ⟨hmark, hvalue⟩
  · rw [hmark, hpattern]
    refine ⟨_, rfl, hwritten _ ?_⟩
    rw [hann.annotationText ht hne]
    exact htype
  · rw [hmark, hvalue, hpattern]
    exact ⟨_, rfl, hwritten _ (by decide)⟩

theorem mapM_parameterText {ps : List Tree} (h : ∀ p ∈ ps, ParameterNode p) :
    ∃ us, ps.mapM (Module.parameterText infer) = .ok us ∧ ∀ u ∈ us, Nested u := by
  induction ps with
  | nil => exact ⟨[], rfl, by simp⟩
  | cons p ps ih =>
    obtain ⟨hp, hps⟩ := List.forall_mem_cons.mp h
    obtain ⟨u, hu, hnested⟩ := hp.parameterText infer
    obtain ⟨us, hus, hall⟩ := ih hps
    refine ⟨u :: us, ?_, List.forall_mem_cons.mpr ⟨hnested, hall⟩⟩
    rw [List.mapM_cons, hu, hus]
    rfl

/-- The node of a method or accessor gives the type of a function. -/
theorem MethodNode.signatureText {t : Tree} {inside type : Text} (h : MethodNode t inside type) :
    ∃ u, Module.signatureText infer t = .ok u ∧ (parse u).form = .function := by
  obtain ⟨ps, hps, hparams⟩ := h.params
  obtain ⟨mark, hmark, -⟩ := h.returns
  obtain ⟨us, hus, hnested⟩ := mapM_parameterText infer (fun p hp =>
    hparams.each p (List.mem_filter.mp hp).1 (List.mem_filter.mp hp).2 :
      ∀ p ∈ ps.namedChildren.filter Module.isParameter, ParameterNode p)
  have htexts : Module.parametersText infer t = .ok (Text.join ", ".toList us) := by
    unfold Module.parametersText
    rw [h.single, hps]
    simp only [hus]
    rfl
  have hreturns : Module.returnsText infer t = .ok (Module.annotationText (some mark)) := by
    unfold Module.returnsText
    rw [hmark]
    rfl
  have hjoin : Nested (Text.join ", ".toList us) := nested_join (nested_plain (by decide)) hnested
  refine ⟨_, ?_, form_arrowText hjoin (Module.annotationText (some mark))⟩
  unfold Module.signatureText
  rw [h.typeParams, hreturns, htexts]
  rfl

namespace Signature

variable {s : Signature}

/-- The form of a signature by its node: a method and a getter are functions. -/
def formByNode (s : Signature) : Form :=
  match s with
  | property _ _ type => (parse type).form
  | method _ _ _ _ | getter _ _ => .function

/-- The form of a signature by its text: a getter has the form of what it returns. -/
def formByText (s : Signature) : Form :=
  match s with
  | property _ _ type | getter _ type => (parse type).form
  | method _ _ _ _ => .function

theorem formByText_eq (s : Signature) : (s.part.build parse).form = s.formByText := by
  cases s <;> rfl

/-- Node and text agree on a signature unless it is a getter, and then iff it returns a function. -/
theorem view_eq_iff (s : Signature) :
    (s.name, s.optional, s.formByNode) = (s.name, s.optional, (s.part.build parse).form) ↔
      (s.isGetter = true → (parse s.type).form = .function) := by
  rw [formByText_eq]
  cases s with
  | property name optional type => exact iff_of_true rfl fun h => by cases h
  | method name optional inside type => exact iff_of_true rfl fun h => by cases h
  | getter name type =>
    simp only [formByNode, formByText, isGetter, Prod.mk.injEq, true_and, forall_const]
    exact eq_comm

theorem stripQuotes_of_isLabel {name : Text} (h : isLabel name = true) (hne : name ≠ []) :
    Module.stripQuotes name = name := by
  match name, h, hne with
  | [c], _, _ => rfl
  | c :: d :: cs, h, _ =>
    have hc := labelChars h c List.mem_cons_self
    have hq : ¬ ((c = '"' ∨ c = '\'' ∨ c = '\x60') ∧ (d :: cs).getLast? = some c) := by
      rintro ⟨rfl | rfl | rfl, -⟩
      · exact absurd hc (by decide)
      · exact absurd hc (by decide)
      · exact absurd hc (by decide)
    rw [Module.stripQuotes, if_neg hq]
    simp

/-- **What a signature reads as by its node.** -/
theorem Stands.member {t : Tree} (hs : s.Stands t) (h : s.Printable) :
    ∃ u, Module.interfaceMember? infer t = .ok (some ⟨s.name, u, s.optional⟩) ∧
      (parse u).form = s.formByNode := by
  obtain ⟨n, hn, hname⟩ := hs.name
  have hquotes : Module.stripQuotes n.text = s.name := by
    rw [hname, stripQuotes_of_isLabel h.name h.name_ne]
  have hmark := hs.mark
  have hform := hs.form
  have call : ∀ {inside type : Text}, MethodNode t inside type →
      ∃ u, Module.interfaceMember? infer t = .ok (some ⟨s.name, u, s.optional⟩) ∧
        (parse u).form = .function := by
    intro inside type hm
    obtain ⟨u, hu, hfun⟩ := hm.signatureText infer
    refine ⟨u, ?_, hfun⟩
    unfold Module.interfaceMember?
    simp only [hn, hm.kind, hquotes, hmark, hu]
    rfl
  cases s with
  | property name optional type =>
    obtain ⟨hkind, mark, hm, hann⟩ := hform
    refine ⟨type, ?_, rfl⟩
    unfold Module.interfaceMember?
    simp only [hn, hkind, hquotes, hmark, hm, hann.annotationText h.trimmed h.type_ne]
    rfl
  | method name optional inside type => exact call hform
  | getter name type => exact call hform.1

end Signature

/-! ## Whole bodies -/

/-- The body of an interface with these signatures: their nodes in order, and their texts between
braces, separated by semicolons, commas or line feeds. -/
structure IsBody (sigs : List Signature) (body : Tree) : Prop where
  nodes : List.Forall₂ Signature.Stands sigs body.namedChildren
  text : ∃ inside, body.text = '{' :: (inside ++ ['}']) ∧
    Listed ";,\n".toList (sigs.map (·.text)) inside

variable {sigs : List Signature}

/-- The members that the nodes of a body give. -/
theorem members_of_nodes {ts : List Tree} (hnodes : List.Forall₂ Signature.Stands sigs ts)
    (h : ∀ s ∈ sigs, s.Printable) :
    ∃ members : List ExportSchema.Member,
      ts.mapM (Module.interfaceMember? infer) = .ok (members.map some) ∧
      members.map (fun m => (m.name, m.optional, (parse m.type).form)) =
        sigs.map fun s => (s.name, s.optional, s.formByNode) := by
  induction hnodes with
  | nil => exact ⟨[], rfl, rfl⟩
  | @cons s t sigs ts hs _ ih =>
    obtain ⟨hp, hrest⟩ := List.forall_mem_cons.mp h
    obtain ⟨u, hu, hform⟩ := hs.member infer hp
    obtain ⟨members, hmembers, hview⟩ := ih hrest
    refine ⟨⟨s.name, u, s.optional⟩ :: members, ?_, ?_⟩
    · rw [List.mapM_cons, hu, hmembers]
      rfl
    · rw [List.map_cons, List.map_cons, hview, hform]

/-- The members that the text of a body gives. -/
theorem members_of_text {inside : Text} (hlist : Listed ";,\n".toList (sigs.map (·.text)) inside)
    (h : ∀ s ∈ sigs, s.Printable) :
    Nested inside ∧
      members inside = sigs.map fun s => Member.property ⟨s.name, s.part, s.optional⟩ := by
  have hnested : ∀ t ∈ sigs.map (·.text), Nested t := by
    intro t ht
    obtain ⟨s, hs, rfl⟩ := List.mem_map.mp ht
    exact (h s hs).nested_text
  obtain ⟨hin, hmembers⟩ := members_listed hlist hnested
  refine ⟨hin, ?_⟩
  rw [hmembers, List.flatMap_map, List.map_eq_flatMap]
  exact List.flatMap_congr fun s hs => (h s hs).members_text

/-- The object type that the text of a body is read as. -/
theorem parse_of_text {inside : Text} (hlist : Listed ";,\n".toList (sigs.map (·.text)) inside)
    (h : ∀ s ∈ sigs, s.Printable) :
    (parse ('{' :: (inside ++ ['}']))).shape =
      .object (sigs.map fun s => ⟨s.name, s.part.build parse, s.optional⟩) none := by
  obtain ⟨hnested, hmembers⟩ := members_of_text hlist h
  have hprops : members inside =
      (sigs.map fun s => ⟨s.name, s.part, s.optional⟩).map Member.property := by
    rw [hmembers, List.map_map]
    rfl
  rw [parse_properties hnested hprops, List.map_map]
  rfl

/-- **The two readings of a body agree iff every getter returns a function.** The members are read
from the nodes of the body and from its text. Names and marks always agree. -/
theorem body_reads_alike_iff {t body : Tree} (h : ∀ s ∈ sigs, s.Printable)
    (hbody : IsBody sigs body) (ht : t.child? .body = some body)
    (infer : Module.Infer (Except Fault)) :
    ∃ members properties, Module.interfaceMembers infer t = .ok members ∧
      (parse body.text).shape = .object properties none ∧
      members.map (fun m => (m.name, m.optional)) =
        properties.map (fun p => (p.name, p.optional)) ∧
      (members.map (fun m => (m.name, m.optional, (parse m.type).form)) =
          properties.map (fun p => (p.name, p.optional, p.type.form)) ↔
        ∀ s ∈ sigs, s.isGetter = true → (parse s.type).form = .function) := by
  obtain ⟨ms, hms, hview⟩ := members_of_nodes infer hbody.nodes h
  obtain ⟨inside, htext, hlist⟩ := hbody.text
  refine ⟨ms, _, ?_, htext ▸ parse_of_text hlist h, ?_, ?_⟩
  · unfold Module.interfaceMembers
    rw [ht]
    simp only [hms]
    show Except.ok _ = Except.ok _
    simp
  · have hnames := congrArg (List.map fun x : Text × Bool × Form => (x.1, x.2.1)) hview
    rw [List.map_map, List.map_map] at hnames
    rw [List.map_map]
    exact hnames
  · rw [hview, List.map_map, List.map_inj_left]
    refine forall_congr' fun s => forall_congr' fun _ => ?_
    exact Signature.view_eq_iff s

/-- An optional property, a method with a parameter that has no type, and a getter of a function,
separated in three styles. -/
theorem body_reads_alike_of_three :
    let token (kind : Kind) (text : String) : Tree := ⟨kind, false, none, text.toList, []⟩
    let leaf (kind : Kind) (field : Field) (text : String) : Tree :=
      ⟨kind, true, some field, text.toList, []⟩
    let id : Signature := .property "id".toList true "string[]".toList
    let size : Signature := .method "größe".toList false "e: E, f".toList "void".toList
    let cb : Signature := .getter "cb".toList "() => A".toList
    let sigs : List Signature := [id, size, cb]
    let first : Tree := ⟨.propertySignature, true, none, "id?: string[]".toList,
      [leaf .propertyIdentifier .name "id", token .questionMark "?",
        leaf .typeMark .type ": string[]"]⟩
    let params : Tree := ⟨.other, true, some .parameters, "(e: E, f)".toList,
      [⟨.requiredParameter, true, none, "e: E".toList,
        [leaf .identifier .pattern "e", leaf .typeMark .type ": E"]⟩,
        ⟨.requiredParameter, true, none, "f".toList, [leaf .identifier .pattern "f"]⟩]⟩
    let second : Tree := ⟨.methodSignature, true, none, "größe(e: E, f): void".toList,
      [leaf .propertyIdentifier .name "größe", params, leaf .typeMark .returnType ": void"]⟩
    let third : Tree := ⟨.methodSignature, true, none, "get cb(): () => A".toList,
      [token .other "get", leaf .propertyIdentifier .name "cb", leaf .other .parameters "()",
        leaf .typeMark .returnType ": () => A"]⟩
    let body : Tree := ⟨.other, true, some .body,
      "\x7b\n  id?: string[]\n  größe(e: E, f): void ;, get cb(): () => A; \x7d".toList,
      [token .other "\x7b", first, second, token .other ";", token .other ",", third,
        token .other ";", token .other "\x7d"]⟩
    let tree : Tree := ⟨.interfaceDeclaration, true, none, [], [body]⟩
    (∀ s ∈ sigs, s.Printable) ∧ IsBody sigs body ∧ tree.child? .body = some body ∧
      ∀ infer : Module.Infer (Except Fault),
        ∃ members properties, Module.interfaceMembers infer tree = .ok members ∧
          (parse body.text).shape = .object properties none ∧
          members.map (fun m => (m.name, m.optional, (parse m.type).form)) =
            properties.map (fun p => (p.name, p.optional, p.type.form)) := by
  intro token leaf id size cb sigs first params second third body tree
  have hsigs : ∀ s ∈ sigs, s.Printable := by decide
  have hparams : ∀ p ∈ params.namedChildren, Module.isParameter p = true → ParameterNode p := by
    intro p hp _
    rcases List.mem_cons.mp hp with rfl | hp
    · exact ⟨⟨_, rfl, by decide⟩,
        Or.inl ⟨_, "E".toList, rfl, ⟨rfl, rfl⟩, by decide, by decide, by decide⟩⟩
    · obtain rfl := List.mem_singleton.mp hp
      exact ⟨⟨_, rfl, by decide⟩, Or.inr ⟨rfl, rfl⟩⟩
  let inside : Text := '\n' :: ' ' :: ' ' :: (id.text ++ [] ++ '\n' :: ' ' :: ' ' ::
    (size.text ++ [' '] ++ ';' :: ',' :: ' ' :: (cb.text ++ [] ++ ';' :: [' '])))
  have htext : body.text = '{' :: (inside ++ ['}']) := by decide +kernel
  have hlist : Listed ";,\n".toList [id.text, size.text, cb.text] inside := by
    refine .filler '\n' (Or.inl rfl) (.filler ' ' (Or.inl rfl) (.filler ' ' (Or.inl rfl) ?_))
    refine .cons _ [] '\n' (by simp) rfl ?_
    refine .filler ' ' (Or.inl rfl) (.filler ' ' (Or.inl rfl) ?_)
    refine .cons _ [' '] ';' (by decide) rfl ?_
    refine .filler ',' (Or.inr rfl) (.filler ' ' (Or.inl rfl) ?_)
    exact .cons _ [] ';' (by simp) rfl (.filler ' ' (Or.inl rfl) .nil)
  have hid : id.Stands first := ⟨⟨_, rfl, rfl⟩, rfl, rfl, _, rfl, rfl, rfl⟩
  have hsize : size.Stands second :=
    ⟨⟨_, rfl, rfl⟩, rfl, ⟨rfl, rfl, rfl, ⟨params, rfl, rfl, hparams⟩, _, rfl, rfl, rfl⟩⟩
  have hcb : cb.Stands third := ⟨⟨_, rfl, rfl⟩, rfl,
    ⟨rfl, rfl, rfl, ⟨_, rfl, rfl, fun p hp => absurd hp List.not_mem_nil⟩, _, rfl, rfl, rfl⟩,
    _, List.mem_cons_self, rfl, rfl⟩
  have hbody : IsBody sigs body := ⟨.cons hid (.cons hsize (.cons hcb .nil)), inside, htext, hlist⟩
  refine ⟨hsigs, hbody, rfl, fun infer => ?_⟩
  obtain ⟨members, properties, hm, hp, -, hiff⟩ :=
    body_reads_alike_iff (t := tree) hsigs hbody rfl infer
  refine ⟨members, properties, hm, hp, hiff.mpr fun s hs hget => ?_⟩
  have hfun : (parse "() => A".toList).form = .function := rfl
  rcases List.mem_cons.mp hs with rfl | hs
  · cases hget
  · rcases List.mem_cons.mp hs with rfl | hs
    · cases hget
    · obtain rfl := List.mem_singleton.mp hs
      exact hfun

/-- **A getter is read in two ways**: by its node it is a function, by its text a number. -/
theorem getter_read_two_ways :
    let token (kind : Kind) (text : String) : Tree := ⟨kind, false, none, text.toList, []⟩
    let leaf (kind : Kind) (field : Field) (text : String) : Tree :=
      ⟨kind, true, some field, text.toList, []⟩
    let size : Signature := .getter "size".toList "number".toList
    let node : Tree := ⟨.methodSignature, true, none, "get size(): number".toList,
      [token .other "get", leaf .propertyIdentifier .name "size", leaf .other .parameters "()",
        leaf .typeMark .returnType ": number"]⟩
    let body : Tree := ⟨.other, true, some .body, "\x7b get size(): number \x7d".toList,
      [token .other "\x7b", node, token .other "\x7d"]⟩
    let tree : Tree := ⟨.interfaceDeclaration, true, none, [], [body]⟩
    (size.Printable ∧ IsBody [size] body ∧ tree.child? .body = some body) ∧
      (∀ infer : Module.Infer (Except Fault), Module.interfaceMembers infer tree =
        .ok [⟨"size".toList, "() => number".toList, false⟩]) ∧
      (parse "() => number".toList).form = .function ∧
      (parse body.text).shape =
        .object [⟨"size".toList, .plain "number".toList (.primitive "number".toList), false⟩]
          none := by
  intro token leaf size node body tree
  have htext : body.text = '{' :: (' ' :: (size.text ++ [' ']) ++ ['}']) := by decide +kernel
  have hsize : size.Stands node := ⟨⟨_, rfl, rfl⟩, rfl,
    ⟨rfl, rfl, rfl, ⟨_, rfl, rfl, fun p hp => absurd hp List.not_mem_nil⟩, _, rfl, rfl, rfl⟩,
    _, List.mem_cons_self, rfl, rfl⟩
  have hbody : IsBody [size] body :=
    ⟨.cons hsize .nil, _, htext, .filler ' ' (Or.inl rfl) (.last _ [' '] (by decide))⟩
  exact ⟨⟨by decide, hbody, rfl⟩, fun infer => rfl, rfl, rfl⟩

end ExportSchema.TypeNode
