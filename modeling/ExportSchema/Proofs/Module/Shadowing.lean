import ExportSchema.Module.Reading
import ExportSchema.Proofs.Module.Dependence

/-!
# Parameters with the names of symbols

In a function a parameter hides the top-level symbol of its name. The rules for types know symbols
only: where a function returns a name, its result is the type of the symbol of that name, also when
the name is that of a parameter. So such a symbol shows in the signature, although the function
cannot see it. And it shows in the parameters, where a default value leads to it.

* `resultExpression?`: the expression whose type is the result of a function.
* `defaultValues`: the default values whose types are printed.
* `signatureIn`: the signature of a function in a module.

Results:
* `typeOf_function`: the signature is the type of a function that is a symbol.
* `parametersText_congr`: the parameters depend on the default values.
* `signature_ignores_iff`: when the symbol of the name that is returned does not show.
* `parameter_does_not_hide`: a symbol that shows, although a parameter has its name.
-/

namespace ExportSchema.Module

open Fields (pending pending_cons_lt pending_le_length)
open Work (Yields)

variable {symbols symbols' : Symbols} {infer infer' : Infer (Except Fault)}
  {lookup : Lookup (Except Fault)} {s : List Text} {t e : Tree} {name : Text}

/-! ## Signatures -/

/-- The signature of a function, where the types of the names of `s` are being told already. -/
def signatureIn (symbols : Symbols) (s : List Text) : Infer (Except Fault) :=
  signatureText (inferType (typeIn symbols s))

/-- **A function that is a symbol** has its signature as its type. -/
theorem typeOf_function (h : symbols.get? name = some ⟨.function, t⟩) :
    typeOf symbols name = (signatureIn symbols [name] t).map some := by
  have hle := pending_le_length symbols []
  have hlt : pending symbols [name] < pending symbols [] := pending_cons_lt h rfl
  obtain ⟨depth, hdepth⟩ : ∃ k, symbols.length = k + 1 := ⟨symbols.length - 1, by omega⟩
  -- the types of other names are told one step deeper, which does not count
  have hlookup : typeOfDepth symbols depth [name] = typeIn symbols [name] :=
    funext fun k => typeOfDepth_eq (by omega) (pending_le_length ..) k
  unfold typeOf
  rw [hdepth]
  unfold typeOfDepth
  simp only [h, List.contains_nil, Bool.false_eq_true, if_false, hlookup]
  show (do return some (← signatureIn symbols [name] t)) = _
  cases signatureIn symbols [name] t <;> rfl

theorem inferType_identifier (h : t.kind = .identifier) :
    inferType lookup t =
      if t.text = "undefined".toList then .ok t.text else orAny <$> lookup t.text := by
  rw [inferType_eq]
  unfold inferStep
  simp only [h]
  rfl

/-! ## Parameters -/

/-- The parameters that are listed in a signature. -/
def listedParameters (t : Tree) : List Tree :=
  match t.child? .parameter, t.child? .parameters with
  | none, some ps => ps.namedChildren.filter isParameter
  | _, _ => []

/-- The default value of a parameter without an annotation. -/
def defaultValue? (p : Tree) : Option Tree :=
  if (p.child? .type).isNone then p.child? .value else none

/-- The default values whose types are printed. -/
def defaultValues (t : Tree) : List Tree := (listedParameters t).filterMap defaultValue?

/-- The names of the parameters of a function that bind no more than a name. -/
def parameterNames (t : Tree) : List Text :=
  let patterns := (t.child? .parameter).toList ++ (listedParameters t).filterMap (·.child? .pattern)
  (patterns.filter (·.kind = .identifier)).map (·.text)

theorem parameterText_congr (h : ∀ d, defaultValue? t = some d → infer d = infer' d) :
    parameterText infer t = parameterText infer' t := by
  unfold parameterText
  cases hmark : t.child? .type with
  | some mark => rfl
  | none =>
    cases hvalue : t.child? .value with
    | none => rfl
    | some value => simp only [h value (by simp [defaultValue?, hmark, hvalue])]

/-- **The parameters depend on the default values.** -/
theorem parametersText_congr (h : ∀ d ∈ defaultValues t, infer d = infer' d) :
    parametersText infer t = parametersText infer' t := by
  unfold parametersText
  cases hsingle : t.child? .parameter with
  | some single => rfl
  | none =>
    cases hps : t.child? .parameters with
    | none => rfl
    | some ps =>
      have hlisted : listedParameters t = ps.namedChildren.filter isParameter := by
        simp [listedParameters, hsingle, hps]
      have hsame : Yields [] ((listedParameters t).mapM (worked (parameterText infer)))
          ((listedParameters t).mapM (parameterText infer)) :=
        Yields.mapM fun p _ => yields_worked rfl
      have htexts := hsame.unique <| Yields.mapM fun p hp => yields_worked <|
        parameterText_congr fun d hd => h d (List.mem_filterMap.mpr ⟨p, hp, hd⟩)
      rw [hlisted] at htexts
      simp only [htexts]

/-! ## Results -/

/-- The expression whose type is the result of a function without an annotated result. -/
def resultExpression? (t : Tree) : Option Tree :=
  (t.child? .body).bind fun body =>
    if body.kind = .statementBlock then firstReturn body else some body

theorem resultText_of_expression (h : resultExpression? t = some e) :
    resultText infer t = infer e := by
  obtain ⟨body, hbody, hresult⟩ := Option.bind_eq_some_iff.mp h
  unfold resultText
  simp only [hbody]
  split at hresult
  · rename_i hblock
    simp only [if_pos hblock, hresult]
  · rename_i hblock
    cases hresult
    exact if_neg hblock

/-- With the same parameters, signatures are the same just when the results are. -/
theorem signatureText_eq_iff {params : Text} (hreturn : t.child? .returnType = none)
    (hparams : parametersText infer t = .ok params)
    (hparams' : parametersText infer' t = .ok params) :
    signatureText infer t = signatureText infer' t ↔ resultText infer t = resultText infer' t := by
  unfold signatureText returnsText
  rw [hparams, hparams', hreturn]
  cases resultText infer t with
  | error f =>
    cases resultText infer' t with
    | error f' => exact Iff.rfl
    | ok result' => exact iff_of_false (nomatch ·) (nomatch ·)
  | ok result =>
    cases resultText infer' t with
    | error f' => exact iff_of_false (nomatch ·) (nomatch ·)
    | ok result' =>
      refine ⟨fun h => ?_, fun h => by rw [h]⟩
      have htexts := Except.ok.inj h
      unfold arrowText at htexts
      simp only [List.append_assoc, List.cons_append, List.append_cancel_left_eq, List.cons.injEq,
        true_and] at htexts
      split at htexts
      · simpa using htexts
      · rw [htexts]

/-! ## Symbols that show -/

/-- The type of a function that is a symbol of two tables is the same when its signature is. -/
theorem typeOf_function_eq_iff (h : symbols.get? name = some ⟨.function, t⟩)
    (h' : symbols'.get? name = some ⟨.function, t⟩) : typeOf symbols name = typeOf symbols' name ↔
      signatureIn symbols [name] t = signatureIn symbols' [name] t := by
  rw [typeOf_function h, typeOf_function h']
  cases signatureIn symbols [name] t <;> cases signatureIn symbols' [name] t <;> simp [Except.map]

/-- **When the symbol of the name that a function returns does not show.** Whether the name is that
of a parameter or not, another symbol of that name leaves the parameters as they are if no default
value leads to it. And with the parameters as they are, it leaves the signature as it is just when
the two symbols have the same type, where no symbol has the type `any`. What is told of a function
that is itself a symbol changes with its signature. -/
theorem signature_ignores_iff (hagree : ∀ n, n ≠ e.text → symbols.get? n = symbols'.get? n)
    (hreturn : t.child? .returnType = none) (hresult : resultExpression? t = some e)
    (hname : e.kind = .identifier) (s : List Text) :
    let params (table : Symbols) := parametersText (inferType (typeIn table s)) t
    ((∀ d ∈ defaultValues t, ∀ n ∈ d.mentioned, ¬ LeadsTo symbols n e.text) →
      params symbols = params symbols') ∧
    (∀ text, params symbols = .ok text → params symbols' = .ok text →
      (signatureIn symbols s t = signatureIn symbols' s t ↔
        e.text = "undefined".toList ∨
          orAny <$> typeIn symbols s e.text = orAny <$> typeIn symbols' s e.text)) ∧
    ∀ f, f ≠ e.text → symbols.get? f = some ⟨.function, t⟩ →
      (typeOf symbols f = typeOf symbols' f ↔
        signatureIn symbols [f] t = signatureIn symbols' [f] t) := by
  intro params
  refine ⟨fun hdefaults => ?_, fun text hparams hparams' => ?_,
    fun f hf h => typeOf_function_eq_iff h ((hagree f hf).symm.trans h)⟩
  · refine parametersText_congr fun d hd => inferType_congr fun n hn => ?_
    exact (sameOn_of_agree hagree).typeIn_eq s (hdefaults d hd n hn)
  · unfold signatureIn
    rw [signatureText_eq_iff hreturn hparams hparams', resultText_of_expression hresult,
      resultText_of_expression hresult, inferType_identifier hname, inferType_identifier hname]
    by_cases hundefined : e.text = "undefined".toList
    · simp [hundefined]
    · rw [if_neg hundefined, if_neg hundefined, or_iff_right hundefined]

/-- In `(x, y = q) => x` a variable `x` of unknown type may be removed. -/
theorem signature_ignores_unknown :
    let leaf (kind : Kind) (field : Option Field) (text : String) : Tree :=
      ⟨kind, true, field, text.toList, []⟩
    let node (kind : Kind) (field : Option Field) (children : List Tree) : Tree :=
      ⟨kind, true, field, [], children⟩
    let x := leaf .identifier (some .body) "x"
    let t := node .arrowFunction none [node .other (some .parameters)
      [node .requiredParameter none [leaf .identifier (some .pattern) "x"],
        node .requiredParameter none
          [leaf .identifier (some .pattern) "y", leaf .identifier (some .value) "q"]], x]
    let q : Text × Symbol :=
      ("q".toList, ⟨.var, node .variableDeclarator none [leaf .number (some .value) "1"]⟩)
    let symbols : Symbols := [("x".toList, ⟨.var, node .variableDeclarator none []⟩), q]
    (∀ n, n ≠ x.text → symbols.get? n = Fields.get? [q] n) ∧ t.child? .returnType = none ∧
      resultExpression? t = some x ∧ x.kind = .identifier ∧
      (∀ d ∈ defaultValues t, ∀ n ∈ d.mentioned, ¬ LeadsTo symbols n x.text) ∧
      parametersText (inferType (typeIn symbols [])) t = .ok "x: any, y?: number".toList ∧
      signatureIn symbols [] t = signatureIn [q] [] t := by
  intro leaf node x t q symbols
  have hagree : ∀ n, n ≠ x.text → symbols.get? n = Fields.get? [q] n := fun n hn => by
    show List.lookup n symbols = _
    rw [List.lookup_cons, beq_false_of_ne hn]
    rfl
  have hdefaults : ∀ d ∈ defaultValues t, ∀ n ∈ d.mentioned, ¬ LeadsTo symbols n x.text := by
    intro d hd n hn hleads
    obtain rfl : d = leaf .identifier (some .value) "q" := List.mem_singleton.mp hd
    obtain rfl : n = "q".toList := List.mem_singleton.mp hn
    rcases Relation.ReflTransGen.cases_head hleads with hq | ⟨k, ⟨y, hy, hk⟩, -⟩
    · exact absurd hq (by decide)
    · -- the variable `q` asks about no name
      cases hy
      cases hk
  have hparams : parametersText (inferType (typeIn symbols [])) t =
      .ok "x: any, y?: number".toList := rfl
  obtain ⟨hsame, hsignature, -⟩ := signature_ignores_iff (t := t) (e := x) hagree rfl rfl rfl []
  refine ⟨hagree, rfl, rfl, rfl, hdefaults, hparams, ?_⟩
  exact (hsignature _ hparams ((hsame hdefaults).symm.trans hparams)).mpr (Or.inr rfl)

/-- **A parameter does not hide the symbol of its name**: the type of
`function f(x: number) { return x }` is `(x: number) => any`, but with `const x = 's'` in the module
it is `(x: number) => string`. -/
theorem parameter_does_not_hide :
    let token (text : String) : Tree := ⟨.other, false, none, text.toList, []⟩
    let leaf (kind : Kind) (field : Option Field) (text : String) : Tree :=
      ⟨kind, true, field, text.toList, []⟩
    let node (kind : Kind) (field : Option Field) (children : List Tree) : Tree :=
      ⟨kind, true, field, [], children⟩
    let x := leaf .identifier none "x"
    let f := node .functionDeclaration none [token "function", leaf .identifier (some .name) "f",
      node .other (some .parameters) [token "(",
        node .requiredParameter none
          [leaf .identifier (some .pattern) "x", leaf .typeMark (some .type) ": number"],
        token ")"],
      node .statementBlock (some .body)
        [token "\x7b", node .returnStatement none [token "return", x], token "\x7d"]]
    let declarator := node .variableDeclarator none
      [leaf .identifier (some .name) "x", token "=", leaf .string (some .value) "'s'"]
    let const := node .lexicalDeclaration none [token "const", declarator]
    f.child? .returnType = none ∧ resultExpression? f = some x ∧ x.kind = .identifier ∧
      x.text ∈ parameterNames f ∧ defaultValues f = [] ∧
      ∃ m m', read ⟨.other, true, none, [], [const, f]⟩ = .ok m ∧
        read ⟨.other, true, none, [], [f]⟩ = .ok m' ∧
        (∀ n, n ≠ x.text → m.symbols.get? n = m'.symbols.get? n) ∧
        typeOf m.symbols "f".toList = .ok (some "(x: number) => string".toList) ∧
        typeOf m'.symbols "f".toList = .ok (some "(x: number) => any".toList) := by
  intro token leaf node x f declarator const
  let symbols : Symbols := [("f".toList, ⟨.function, f⟩)]
  let declaration : Declaration := .define .function ["f".toList] false false
  have hread : read ⟨.other, true, none, [], [const, f]⟩ =
      .ok ⟨("x".toList, ⟨.var, declarator⟩) :: symbols,
        [.define .variables ["x".toList] false false, declaration]⟩ := rfl
  have hread' : read ⟨.other, true, none, [], [f]⟩ = .ok ⟨symbols, [declaration]⟩ := rfl
  refine ⟨rfl, rfl, rfl, by decide, rfl, _, _, hread, hread', fun n hn => ?_, rfl, rfl⟩
  show List.lookup n _ = List.lookup n symbols
  rw [List.lookup_cons, beq_false_of_ne hn]

end ExportSchema.Module
