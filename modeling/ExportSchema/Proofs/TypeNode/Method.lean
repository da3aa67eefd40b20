import ExportSchema.Proofs.TypeNode.InterfaceBody

/-!
# Methods and properties of functions

`m<T>(x: T): R` is a method, `m: <T>(x: T) => R` a property of a function type. They are meant to say
the same. The arrow is found with regard to nesting. The parameters of a method are looked for from
the first parenthesis on, wherever it stands, so a parenthesis in the type parameters misleads the
reading.

* `Method`: a method, by its parts.
* `Method.text`, `Method.arrow`: an object type with the method, and with the property instead.
* `Method.ReadsAlike`: both have one property of the same name and mark, and it is a function of the
  same parameters and result.

Results:
* `Method.Printable.member?_line`: a method is read iff all from its first parenthesis on is one group.
* `Method.Printable.enclosed?_of_code`: it is not, if that parenthesis is one of the type parameters.
* `method_reads_as_arrow_iff`: when both say the same.
-/

namespace ExportSchema.TypeNode

open Text (trim isBlank)
open Lexeme ExportSchema.Bracket

/-- A method by its parts: its name and mark, its type parameters, the text between its parentheses
and its result. -/
structure Method where
  name : Text
  optional : Bool
  typeParams : Text
  inside : Text
  returns : Text

namespace Method

/-- The type parameters and the parameters in parentheses. -/
def signature (m : Method) : Text := m.typeParams ++ '(' :: (m.inside ++ [')'])

/-- The signature from its first parenthesis on. The parameters are looked for here. -/
def fromParen (m : Method) : Text := m.signature.dropWhile (· ≠ '(')

/-- What stands before the colon of the method. -/
def front (m : Method) : Text := markedName m.name m.optional ++ m.signature

/-- An object type with the method. -/
def text (m : Method) : Text := Module.bracedText [m.front ++ ':' :: ' ' :: m.returns]

/-- The function type that the method stands for. -/
def type (m : Method) : Text := Module.arrowText m.typeParams m.inside m.returns

/-- An object type with a property of this type instead. -/
def arrow (m : Method) : Text :=
  Module.bracedText [markedName m.name m.optional ++ ':' :: ' ' :: m.type]

/-- The name is a name, the type parameters are none or one group in angle brackets, the parameters
are properly nested, and so is the result, with no end of a member at its top level. -/
structure Printable (m : Method) : Prop where
  name : isLabel m.name = true
  name_ne : m.name ≠ []
  typeParams : IsTypeParams m.typeParams
  inside : Nested m.inside
  returns : LineType m.returns

/-- Both object types have one property, of the same name and mark, and it is a function of the same
parameters and result. -/
def ReadsAlike (m : Method) : Prop :=
  ∃ params returns text text',
    (parse m.text).shape =
        .object [⟨m.name, .plain text (.function params returns), m.optional⟩] none ∧
      (parse m.arrow).shape =
        .object [⟨m.name, .plain text' (.function params returns), m.optional⟩] none

variable {m : Method}

/-! ## The signature -/

theorem head?_signature (h : m.Printable) :
    ∃ c, m.signature.head? = some c ∧ (c = '<' ∨ c = '(') := by
  unfold signature
  rcases h.typeParams with hnil | ⟨hlt, -⟩
  · exact ⟨'(', by rw [hnil]; rfl, Or.inr rfl⟩
  · exact ⟨'<', by rw [List.head?_append, hlt]; rfl, Or.inl rfl⟩

theorem settled_signature (h : m.Printable) : Settled m.signature :=
  h.typeParams.settled.append
    (settled_group rfl (h.inside.closesBehind (c := ')') rfl fun h => by cases h))

theorem clearFrom_signature (h : m.Printable) {delims : Text} (hlt : delims.contains '<' = false)
    (hparen : delims.contains '(' = false) : clearFrom delims .start m.signature = true :=
  h.typeParams.settled.clear_append (h.typeParams.clear hlt)
    (clearFrom_group rfl (h.inside.closesBehind (c := ')') rfl fun h => by cases h) hparen false)

/-- A signature is cut at its first parenthesis, with type parameters before it or their beginning. -/
theorem exists_fromParen (h : m.Printable) :
    ∃ lead rest, m.signature = lead ++ '(' :: rest ∧ m.fromParen = '(' :: rest ∧
      trim m.fromParen = m.fromParen ∧ '(' ∉ lead ∧ ∀ c, lead.head? = some c → c = '<' := by
  have hmem : '(' ∈ m.signature := by simp [signature]
  obtain ⟨lead, rest, happ, hlead⟩ := List.eq_append_cons_of_mem hmem
  have hfrom : m.fromParen = '(' :: rest := by
    unfold fromParen
    rw [happ, Text.dropWhile_append_sep hlead]
  have hlast : ('(' :: rest).getLast? = some ')' := by
    have hwhole : m.signature.getLast? = some ')' := by
      unfold signature
      rw [← List.cons_append, ← List.append_assoc, List.getLast?_concat]
    rwa [happ, List.getLast?_append_of_ne_nil _ (List.cons_ne_nil _ _)] at hwhole
  refine ⟨lead, rest, happ, hfrom, ?_, hlead, fun c hc => ?_⟩
  · rw [hfrom]
    refine Text.trim_eq_self (fun c hc => ?_) fun c hc => ?_
    · cases hc
      rfl
    · rw [hlast] at hc
      cases hc
      rfl
  · obtain ⟨d, hd, hlt⟩ := head?_signature h
    rw [happ, List.head?_append, hc] at hd
    cases hd
    refine hlt.resolve_right ?_
    rintro rfl
    exact hlead (List.mem_of_head? hc)

/-- Without a parenthesis in the type parameters, the first one opens the parameters. -/
theorem Printable.enclosed?_of_not_mem (h : m.Printable) (hp : '(' ∉ m.typeParams) :
    enclosed? '(' m.fromParen = some m.inside := by
  unfold fromParen signature
  rw [Text.dropWhile_append_sep hp]
  exact (enclosed?_eq_some_iff rfl).mpr ⟨')', rfl, h.inside.closesBehind rfl fun h => by cases h⟩

/-- **A parenthesis of the type parameters does not open the parameters**: it is closed before the type
parameters are. -/
theorem Printable.enclosed?_of_code (h : m.Printable) {a b : Text}
    (hab : m.typeParams = a ++ '(' :: b) (ha : '(' ∉ a)
    (hcode : (State.start.run a).mode = .code) : enclosed? '(' m.fromParen = none := by
  have hfrom : m.fromParen = '(' :: ((b ++ '(' :: m.inside) ++ [')']) := by
    unfold fromParen signature
    rw [hab, List.append_assoc, List.cons_append, Text.dropWhile_append_sep ha]
    simp
  refine Option.eq_none_iff_forall_not_mem.mpr fun inside hin => ?_
  obtain ⟨c, happ, hb⟩ := (enclosed?_eq_some_iff rfl).mp hin
  rw [hfrom] at happ
  obtain ⟨rfl, -⟩ := List.append_inj' (List.cons_inj_right _ |>.mp happ) rfl
  -- if the rest of the type parameters closes nothing from before, the parenthesis stays open
  have hstray : noStrayFrom .start b = true := (noStrayFrom_append.mp hb.nested.noStray).1
  have hrun := h.typeParams.settled.run
  rw [hab, State.run_append, State.run_cons] at hrun
  generalize State.start.run a = s at hcode hrun
  obtain ⟨d, mode, e⟩ := s
  cases hcode
  have hopen : (State.code d e).step '(' = State.start.lift (d + 1) := by
    rw [step_opener rfl]
    simp [State.lift, State.start]
  rw [hopen, run_lift hstray] at hrun
  have hdepth := congrArg State.depth hrun
  rw [State.lift_depth] at hdepth
  exact absurd hdepth (Nat.succ_ne_zero _)

/-! ## The property -/

theorem type_eq (m : Method) : m.type = m.signature ++ (" => ".toList ++ m.returns) := by
  show m.typeParams ++ '(' :: m.inside ++ [')', ' ', '=', '>', ' '] ++ m.returns = _
  simp [signature]

theorem Printable.lineType (h : m.Printable) : LineType m.type := by
  have harrow : Settled " => ".toList := ⟨by decide, rfl⟩
  obtain ⟨c, hhead, hc⟩ := head?_signature h
  rw [type_eq]
  refine ⟨(settled_signature h).nested.append (harrow.nested.append h.returns.nested), ?_, ?_,
    by simp⟩
  · exact (settled_signature h).clear_append (clearFrom_signature h (by decide) (by decide))
      (harrow.clear_append (by decide) h.returns.clear)
  · refine Text.trim_eq_self (fun d hd => ?_) fun d hd => ?_
    · rw [List.head?_append, hhead] at hd
      cases hd
      rcases hc with rfl | rfl <;> rfl
    · rw [← List.append_assoc, List.getLast?_append_of_ne_nil _ h.returns.ne] at hd
      exact (Text.trim_eq_self_iff.mp h.returns.trimmed).2 d hd

/-- The property is the function. -/
theorem Printable.shape_arrow (h : m.Printable) :
    (parse m.arrow).shape = .object [⟨m.name,
      .plain m.type (.function ((params m.inside).map (·.map parse)) (parse m.returns)),
      m.optional⟩] none := by
  have hmember : member? (markedName m.name m.optional ++ ':' :: ' ' :: m.type) =
      some (.property ⟨m.name, .text m.type, m.optional⟩) := by
    rw [← markedName_append]
    exact member?_text (m := ⟨m.name, m.type, m.optional⟩) h.name h.name_ne h.lineType.trimmed
  have hparse : parse m.type = .plain (trim m.type) _ :=
    parse_arrowText h.typeParams.typeParams h.inside m.returns
  rw [h.lineType.trimmed] at hparse
  unfold arrow
  rw [(front_markedName h.name m.optional).shape_line h.lineType
    (some ⟨m.name, .text m.type, m.optional⟩) hmember, ← hparse]
  rfl

/-! ## The method -/

theorem Printable.front (h : m.Printable) : Front m.front := by
  have hname := settled_markedName h.name m.optional
  have hfront : m.front =
      (markedName m.name m.optional ++ m.typeParams) ++ '(' :: (m.inside ++ [')']) :=
    (List.append_assoc _ _ _).symm
  rw [hfront]
  refine front_call (hname.append h.typeParams.settled)
    (hname.clear_append (clearFrom_markedName h.name m.optional (by decide))
      (h.typeParams.clear (by decide))) (fun c hc => ?_) h.inside
  obtain ⟨d, hd, -⟩ := head?_markedName h.name h.name_ne m.optional
  rw [List.head?_append, hd] at hc
  cases hc
  exact (Text.trim_eq_self_iff.mp (trim_markedName h.name m.optional)).1 c hd

/-- **A method is read iff all from its first parenthesis on is one group.** -/
theorem Printable.member?_line (h : m.Printable) :
    member? (m.front ++ ':' :: ' ' :: m.returns) =
      ((enclosed? '(' m.fromParen).map fun inside => (⟨m.name,
        .method (m.fromParen ++ " => ".toList ++ m.returns) (params inside) m.returns,
        m.optional⟩ : Property Part)).map Member.property := by
  obtain ⟨lead, rest, happ, hfrom, hfromTrim, hlead, hlt⟩ := exists_fromParen h
  have hfront : m.front = (markedName m.name m.optional ++ lead) ++ '(' :: rest := by
    unfold Method.front
    rw [happ, List.append_assoc]
  have hparen : '(' ∉ markedName m.name m.optional ++ lead := by
    rw [List.mem_append]
    rintro (hc | hc)
    · exact not_mem_of_class (markedChars h.name m.optional) (by decide) hc
    · exact hlead hc
  have hnamed : Named m.front := by
    refine named_markedName h.name h.name_ne m.optional fun c hc => ?_
    obtain ⟨d, hd, hopen⟩ := head?_signature h
    rw [hd] at hc
    cases hc
    rcases hopen with rfl | rfl <;> rfl
  have htrim := h.front.trimmed
  rw [member?_call (h.front.cutAt?_line m.returns) (by rwa [htrim]) (by rw [htrim, hfront]; simp),
    htrim, hfront, Text.takeWhile_append_sep hparen, Text.dropWhile_append_sep hparen, ← hfrom,
    hfromTrim, Text.trim_cons (c := ' ') rfl, h.returns.trimmed,
    Signature.methodMember?_typeParams h.name h.name_ne m.optional hlt]

theorem Printable.shape_text (h : m.Printable) :
    (parse m.text).shape = .object ((enclosed? '(' m.fromParen).map fun inside => (⟨m.name,
      .plain (m.fromParen ++ " => ".toList ++ m.returns)
        (.function ((params inside).map (·.map parse)) (parse m.returns)),
      m.optional⟩ : Property TypeNode)).toList none := by
  unfold text
  rw [h.front.shape_line h.returns _ h.member?_line, Option.map_map]
  rfl

/-- **Both say the same iff the group from the first parenthesis on holds the parameters.** -/
theorem Printable.readsAlike_iff (h : m.Printable) :
    m.ReadsAlike ↔ ∃ inside, enclosed? '(' m.fromParen = some inside ∧
      (params inside).map (·.map parse) = (params m.inside).map (·.map parse) := by
  unfold ReadsAlike
  rw [h.shape_text, h.shape_arrow]
  constructor
  · rintro ⟨ps, returns, text, text', hm, ha⟩
    cases ha
    cases he : enclosed? '(' m.fromParen with
    | none =>
      rw [he] at hm
      cases hm
    | some inside =>
      rw [he] at hm
      simp only [Option.map_some, Option.toList_some, Shape.object.injEq, List.cons.injEq,
        Property.mk.injEq, plain, TypeNode.mk.injEq, Shape.function.injEq] at hm
      exact ⟨inside, rfl, hm.1.1.2.1.2.2.1⟩
  · rintro ⟨inside, he, hparams⟩
    rw [he, ← hparams]
    exact ⟨_, _, _, _, rfl, rfl⟩

end Method

/-- **When a method says the same as a property of a function type.** The property always reads as the
function. The method does iff all from its first parenthesis on is one group that holds the same
parameters: always, if the type parameters have no parenthesis, and never, if they have one outside
of strings; then the method is lost. -/
theorem method_reads_as_arrow_iff {m : Method} (h : m.Printable) :
    (m.ReadsAlike ↔ ∃ inside, enclosed? '(' m.fromParen = some inside ∧
        (params inside).map (·.map parse) = (params m.inside).map (·.map parse)) ∧
      ('(' ∉ m.typeParams → m.ReadsAlike) ∧
      ∀ a b, m.typeParams = a ++ '(' :: b → '(' ∉ a → (State.start.run a).mode = .code →
        (parse m.text).shape = .object [] none ∧ ¬ m.ReadsAlike := by
  refine ⟨h.readsAlike_iff, fun hp => ?_, fun a b hab ha hcode => ?_⟩
  · exact h.readsAlike_iff.mpr ⟨m.inside, h.enclosed?_of_not_mem hp, rfl⟩
  · have hnone := h.enclosed?_of_code hab ha hcode
    refine ⟨by rw [h.shape_text, hnone]; rfl, fun halike => ?_⟩
    obtain ⟨inside, he, -⟩ := h.readsAlike_iff.mp halike
    rw [hnone] at he
    cases he

/-- An optional method with a bound and a default of its type parameters, and an arrow in its
parameters. -/
theorem method_reads_as_arrow_of_generic :
    let m : Method := ⟨"map".toList, true, "<T extends Array<A>, U = \x7b k: ')' \x7d>".toList,
      "f: (a: A) => B, ...xs: [T, U]".toList, "Map<T, U> | null".toList⟩
    m.text = "\x7b map?<T extends Array<A>, U = \x7b k: ')' \x7d>".toList ++
        "(f: (a: A) => B, ...xs: [T, U]): Map<T, U> | null \x7d".toList ∧
      m.Printable ∧ m.ReadsAlike := by
  intro m
  have h : m.Printable := ⟨by decide, by decide, Or.inr ⟨rfl, by decide⟩, by decide, by decide⟩
  exact ⟨by decide, h, (method_reads_as_arrow_iff h).2.1 (by decide)⟩

/-- **A function type as the bound of a type parameter hides the method**, but not the property. -/
theorem method_of_function_bound :
    let m : Method :=
      ⟨"m".toList, false, "<T extends (a: A) => B>".toList, "x: T".toList, "T".toList⟩
    (m.text = "\x7b m<T extends (a: A) => B>(x: T): T \x7d".toList ∧ m.Printable) ∧
      (parse m.text).shape = .object [] none ∧
      (parse m.arrow).shape = .object [⟨"m".toList,
        .plain "<T extends (a: A) => B>(x: T) => T".toList
          (.function [⟨"x".toList, .verbatim "T".toList⟩] (.verbatim "T".toList)), false⟩] none ∧
      ¬ m.ReadsAlike := by
  intro m
  have h : m.Printable := ⟨by decide, by decide, Or.inr ⟨rfl, by decide⟩, by decide, by decide⟩
  have hnone : enclosed? '(' m.fromParen = none :=
    h.enclosed?_of_code (a := "<T extends ".toList) rfl (by decide) rfl
  refine ⟨⟨by decide, h⟩, by rw [h.shape_text, hnone]; rfl, by rw [h.shape_arrow]; rfl,
    fun halike => ?_⟩
  obtain ⟨inside, he, -⟩ := h.readsAlike_iff.mp halike
  rw [hnone] at he
  cases he

end ExportSchema.TypeNode
