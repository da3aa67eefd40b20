import ExportSchema.Proofs.Module.Rule
import ExportSchema.Proofs.TypeNode.Construct
import ExportSchema.Proofs.TypeNode.Member

/-!
# Signatures read back

A signature is written as type parameters, parameters in parentheses, an arrow and a result. It is
read back as the function it was written from: the group in parentheses ends where the written one
ends, and the first arrow behind it owns all that follows. So nothing is asked of the result.

* `Parameter`: a parameter as a signature has it.
* `Parameter.Printable`: its type text is nested and has no comma at the top level.
* `IsTypeParams`: no type parameters, or one group in angle brackets.

Results:
* `params_text`: parameters with commas between them read back in order.
* `parse_signature`: a written signature is read as its parameters and its result.
* `exists_of_signatureText`: the type of every function is written as a signature.
* `signature_reads_back`: a signature reads back as its parameters and its result.
-/

namespace ExportSchema.TypeNode

open Text (trim isBlank)
open Lexeme ExportSchema.Bracket

/-! ## Parameters -/

/-- A parameter as a signature has it. -/
structure Parameter where
  name : Text
  optional : Bool
  type : Text

namespace Parameter

/-- The parameter as it is written. -/
def text (p : Parameter) : Text := Module.paramText p.name p.optional p.type

/-- The name can be told apart from the marks around it, and the type text is properly nested with
no comma at the top level. -/
structure Printable (p : Parameter) : Prop where
  name : isLabel p.name = true
  nested : Nested p.type
  clear : hasTopLevel [','] p.type = false

instance (p : Parameter) : Decidable p.Printable :=
  decidable_of_iff (isLabel p.name = true ∧ Nested p.type ∧ hasTopLevel [','] p.type = false)
    ⟨fun ⟨a, b, c⟩ => ⟨a, b, c⟩, fun ⟨a, b, c⟩ => ⟨a, b, c⟩⟩

variable {p : Parameter}

theorem text_eq (p : Parameter) :
    p.text = (markedName p.name p.optional ++ [':', ' ']) ++ p.type := by
  unfold text Module.paramText
  rw [markedName_append]
  simp

theorem settled_label (h : isLabel p.name = true) :
    Settled (markedName p.name p.optional ++ [':', ' ']) :=
  (settled_markedName h p.optional).append (settled_plain (by decide) (by decide))

theorem Printable.nested_text (h : p.Printable) : Nested p.text := by
  rw [text_eq]
  exact (settled_label h.name).nested.append h.nested

theorem Printable.clear_text (h : p.Printable) : clearFrom [','] .start p.text = true := by
  have hname : clearFrom [','] .start (markedName p.name p.optional ++ [':', ' ']) = true :=
    (settled_markedName h.name p.optional).clear_append
      (clearFrom_markedName h.name p.optional (by decide)) (by decide)
  have htype : clearFrom [','] .start p.type = true := by
    have hclear := h.clear
    rw [hasTopLevel_eq] at hclear
    simpa using hclear
  rw [text_eq]
  exact (settled_label h.name).clear_append hname htype

/-- Blanks behind the type do not count, so the colon keeps the name and the type apart. -/
theorem Printable.trim_text (h : p.Printable) :
    ∃ rest, trim p.text = markedName p.name p.optional ++ ':' :: rest ∧ trim rest = trim p.type := by
  obtain ⟨rest, htrim, hrest⟩ := Text.trim_cons_eq (c := ':') rfl (' ' :: p.type)
  refine ⟨rest, ?_, by rw [hrest, Text.trim_cons rfl]⟩
  have hhead := (Text.trim_eq_self_iff.mp (trim_markedName h.name p.optional)).1
  unfold text Module.paramText
  rw [markedName_append, Text.trim_append hhead rfl rfl, htrim]

/-- A parameter between commas reads back as its name and its trimmed type text. -/
theorem Printable.pieces_text (h : p.Printable) :
    (pieces [','] p.text).map param = [⟨p.name, trim p.type⟩] := by
  obtain ⟨rest, htrim, hrest⟩ := h.trim_text
  have hne : trim p.text ≠ [] := by
    rw [htrim]
    simp
  rw [pieces_eq_trim h.clear_text hne, List.map_singleton, htrim, param_markedName h.name, hrest]

end Parameter

/-- **Parameters with commas between them** read back in order. -/
theorem params_text {ps : List Parameter} (h : ∀ p ∈ ps, p.Printable) :
    params (Text.join ", ".toList (ps.map (·.text))) = ps.map fun p => ⟨p.name, trim p.type⟩ := by
  have hsep : Separator [','] ", ".toList :=
    ⟨[], ',', [' '], rfl, by decide, by decide, by decide, by decide, by decide⟩
  have hnested : ∀ t ∈ ps.map (·.text), Nested t := by
    intro t ht
    obtain ⟨p, hp, rfl⟩ := List.mem_map.mp ht
    exact (h p hp).nested_text
  show (pieces [','] _).map param = _
  rw [pieces_join hsep hnested]
  clear hnested
  induction ps with
  | nil => rfl
  | cons p ps ih =>
    rw [List.map_cons, List.flatMap_cons, List.map_append, (h p List.mem_cons_self).pieces_text,
      ih fun q hq => h q (List.mem_cons_of_mem p hq)]
    rfl

/-! ## The whole signature -/

/-- No type parameters, or a text that opens with an angle bracket which its last character
closes. -/
def IsTypeParams (t : Text) : Prop := t = [] ∨ t.head? = some '<' ∧ close? t 0 = some (t.length - 1)

theorem IsTypeParams.cases {t : Text} (h : IsTypeParams t) :
    t = [] ∨ ∃ inner c, t = '<' :: (inner ++ [c]) ∧ ClosesBehind .start inner c := by
  refine h.imp_right fun ⟨hhead, hclose⟩ => ?_
  cases t with
  | nil => cases hhead
  | cons o t =>
    cases hhead
    obtain ⟨inner, c, rest, rfl, hlen, hb⟩ := (close?_eq_some_iff rfl).mp hclose
    obtain rfl : rest = [] := by
      simp only [List.length_cons, List.length_append] at hlen
      exact List.length_eq_zero_iff.mp (by omega)
    exact ⟨inner, c, rfl, hb⟩

theorem IsTypeParams.typeParams {t : Text} (h : IsTypeParams t) : TypeParams t := by
  rcases h.cases with rfl | ⟨inner, c, rfl, hb⟩
  · exact .none
  · exact .some hb fun x hx => absurd hx List.not_mem_nil

theorem IsTypeParams.settled {t : Text} (h : IsTypeParams t) : Settled t := by
  rcases h.cases with rfl | ⟨inner, c, rfl, hb⟩
  · exact ⟨nested_nil, rfl⟩
  · exact settled_group rfl hb

theorem IsTypeParams.clear {t : Text} (h : IsTypeParams t) {delims : Text}
    (hd : delims.contains '<' = false) : clearFrom delims .start t = true := by
  rcases h.cases with rfl | ⟨inner, c, rfl, hb⟩
  · rfl
  · exact clearFrom_group rfl hb hd false

/-- A written signature is read as its parameters and its result. -/
theorem parse_signature {lead : Text} (hlead : TypeParams lead) {ps : List Parameter}
    (hps : ∀ p ∈ ps, p.Printable) (returns : Text) :
    parse (Module.arrowText lead (Text.join ", ".toList (ps.map (·.text))) returns) =
      .plain (trim (Module.arrowText lead (Text.join ", ".toList (ps.map (·.text))) returns))
        (.function (ps.map fun p => ⟨p.name, parse p.type⟩) (parse returns)) := by
  have hnested : Nested (Text.join ", ".toList (ps.map (·.text))) := by
    refine nested_join (nested_plain (by decide)) fun t ht => ?_
    obtain ⟨p, hp, rfl⟩ := List.mem_map.mp ht
    exact (hps p hp).nested_text
  have hparams : (params (Text.join ", ".toList (ps.map (·.text)))).map (·.map parse) =
      ps.map fun p => ⟨p.name, parse p.type⟩ := by
    rw [params_text hps, List.map_map]
    refine List.map_congr_left fun p _ => ?_
    simp only [Function.comp_apply, Param.map, parse_trim]
  rw [parse_arrowText hlead hnested, hparams]

/-! ## Types of functions -/

variable {infer : Module.Infer (Except Fault)}

theorem exists_of_parameterText {tree : Tree} {text : Text}
    (h : Module.parameterText infer tree = .ok text) : ∃ p : Parameter, text = p.text := by
  simp only [Module.parameterText] at h
  split at h
  · cases h
    exact ⟨⟨_, _, _⟩, rfl⟩
  · obtain ⟨type, -, h⟩ := Module.exists_ok_of_bind h
    cases h
    exact ⟨⟨_, _, type⟩, rfl⟩
  · cases h
    exact ⟨⟨_, _, _⟩, rfl⟩

theorem exists_of_mapM_parameterText {trees : List Tree} {texts : List Text}
    (h : trees.mapM (Module.parameterText infer) = .ok texts) :
    ∃ ps : List Parameter, texts = ps.map (·.text) := by
  induction trees generalizing texts with
  | nil =>
    cases h
    exact ⟨[], rfl⟩
  | cons tree trees ih =>
    rw [List.mapM_cons] at h
    obtain ⟨text, htext, h⟩ := Module.exists_ok_of_bind h
    obtain ⟨texts, htexts, h⟩ := Module.exists_ok_of_bind h
    obtain ⟨p, rfl⟩ := exists_of_parameterText htext
    obtain ⟨ps, rfl⟩ := ih htexts
    cases h
    exact ⟨p :: ps, rfl⟩

theorem exists_of_parametersText {tree : Tree} {text : Text}
    (h : Module.parametersText infer tree = .ok text) :
    ∃ ps : List Parameter, text = Text.join ", ".toList (ps.map (·.text)) := by
  unfold Module.parametersText at h
  split at h
  · rename_i _ _ single _
    cases h
    refine ⟨[⟨single.text, false, Module.anyText⟩], ?_⟩
    show single.text ++ ": any".toList = single.text ++ [] ++ ": ".toList ++ "any".toList
    simp
  · cases h
    exact ⟨[], rfl⟩
  · obtain ⟨texts, htexts, htext⟩ := Module.exists_ok_of_bind h
    obtain ⟨ps, rfl⟩ := exists_of_mapM_parameterText htexts
    cases htext
    exact ⟨ps, rfl⟩

/-- The type of a function is written as a signature, with its own type parameters and result. -/
theorem exists_of_signatureText {tree : Tree} {text : Text}
    (h : Module.signatureText infer tree = .ok text) :
    ∃ (ps : List Parameter) (returns : Text), Module.returnsText infer tree = .ok returns ∧
      text = Module.arrowText (((tree.child? .typeParameters).map (·.text)).getD [])
        (Text.join ", ".toList (ps.map (·.text))) returns := by
  obtain ⟨returns, hreturns, h⟩ := Module.exists_ok_of_bind h
  obtain ⟨params, hparams, h⟩ := Module.exists_ok_of_bind h
  obtain ⟨ps, rfl⟩ := exists_of_parametersText hparams
  cases h
  exact ⟨ps, returns, hreturns, rfl⟩

/-- **A signature reads back** as the function it was written from. It is what the type of every
function is written as. Its type parameters are none or one group in angle brackets, the type texts
of its parameters are properly nested without a comma at the top level, and its result is any text
at all, even one whose brackets do not match. -/
theorem signature_reads_back (lead : Text) (ps : List Parameter) (returns : Text)
    (hlead : IsTypeParams lead) (hps : ∀ p ∈ ps, p.Printable) :
    let written (lead : Text) (ps : List Parameter) (returns : Text) : Text :=
      Module.arrowText lead (Text.join ", ".toList (ps.map (·.text))) returns
    (∀ (infer : Module.Infer (Except Fault)) (tree : Tree) (text : Text),
      Module.signatureText infer tree = .ok text →
        ∃ ps returns, Module.returnsText infer tree = .ok returns ∧
          text = written (((tree.child? .typeParameters).map (·.text)).getD []) ps returns) ∧
    parse (written lead ps returns) = ⟨trim (written lead ps returns), false,
      .function (ps.map fun p => ⟨p.name, parse p.type⟩) (parse returns)⟩ :=
  ⟨fun _ _ _ => exists_of_signatureText, parse_signature hlead.typeParams hps returns⟩

/-- A parameter with an arrow and commas in its type, one with blanks behind it, and a result whose
brackets do not match. -/
theorem signature_reads_back_unmatched :
    let ps : List Parameter := [⟨"cb".toList, true, "(a: A, b?: B) => [C, D] | null".toList⟩,
      ⟨"größe".toList, false, "\x7b k: 'a, b'; m: number \x7d ".toList⟩]
    let t := "<T, U = T[]>(cb?: (a: A, b?: B) => [C, D] | null, größe: ".toList ++
      "\x7b k: 'a, b'; m: number \x7d ) => ((x | \x7b y[]".toList
    IsTypeParams "<T, U = T[]>".toList ∧ (∀ p ∈ ps, p.Printable) ∧
      parse t = ⟨t, false, .function (ps.map fun p => ⟨p.name, parse p.type⟩)
        (parse "((x | \x7b y[]".toList)⟩ := by
  intro ps t
  have hlead : IsTypeParams "<T, U = T[]>".toList := Or.inr ⟨rfl, by decide⟩
  have hps : ∀ p ∈ ps, p.Printable := by
    intro p hp
    rcases List.mem_cons.mp hp with rfl | hp
    · exact ⟨by decide, by decide, by decide⟩
    · obtain rfl := List.mem_singleton.mp hp
      exact ⟨by decide, by decide, by decide⟩
  have ht : Module.arrowText "<T, U = T[]>".toList (Text.join ", ".toList (ps.map (·.text)))
      "((x | \x7b y[]".toList = t := by decide +kernel
  have htrim : trim t = t := by decide +kernel
  have hparse := (signature_reads_back _ ps "((x | \x7b y[]".toList hlead hps).2
  simp only [ht, htrim] at hparse
  exact ⟨hlead, hps, hparse⟩

end ExportSchema.TypeNode
