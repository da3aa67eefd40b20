import ExportSchema.Proofs.TypeNode.Member

/-!
# Members in any style

The members of an object type end at a semicolon, a comma or a line feed. Which of them stands between
two members, how many of them, and the blanks around them are a matter of style: the type does not
depend on them. Neither do they matter before the first member and behind the last.

* `isFiller`, `isSeparator`: what may stand around members, and what has to stand between two.
* `inRow`: texts one after the other, each with a separator of its own behind it.
* `Style`: a choice of separators.

Results:
* `Style.listed`: in any style the members are listed.
* `parse_listed`: listed members make the object type that has the properties of each, in order, and
  the index type of the last that has one.
* `style_does_not_count`: an object type is the same in all styles.
-/

namespace ExportSchema.TypeNode

open Text (trim isBlank)
open Lexeme ExportSchema.Bracket

/-! ## Styles -/

/-- A blank, or a character that ends a member. -/
def isFiller (c : Char) : Bool := isBlank c || ";,\n".toList.contains c

/-- Blanks and ends of members, and at least one such end. -/
def isSeparator (sep : Text) : Bool := sep.all isFiller && sep.any fun c => ";,\n".toList.contains c

/-- Texts one after the other, with the separator `sep i` behind the `i`-th of them, except behind the
last. -/
def inRow (sep : Nat → Text) : List Text → Text
  | [] => []
  | [t] => t
  | t :: u :: ts => t ++ sep 0 ++ inRow (fun i => sep (i + 1)) (u :: ts)

/-- A style of writing members: a separator for each place between two of them, and fillers before the
first and behind the last. -/
structure Style where
  before : Text
  between : Nat → Text
  after : Text
  fillers : ∀ c ∈ before ++ after, isFiller c = true
  separators : ∀ i, isSeparator (between i) = true

/-- The members between braces, in this style. -/
def Style.text (s : Style) (ms : List Text) : Text :=
  '{' :: (s.before ++ (inRow s.between ms ++ s.after) ++ ['}'])

theorem isFiller_iff {c : Char} :
    isFiller c = true ↔ isBlank c = true ∨ List.contains ";,\n".toList c = true := by
  rw [isFiller, Bool.or_eq_true]

/-- Fillers are blanks only, or blanks up to the end of a member and more fillers. -/
theorem fillers_cases {t : Text} (h : ∀ c ∈ t, isFiller c = true) :
    (∀ c ∈ t, isBlank c = true ∧ List.contains ";,\n".toList c = false) ∨
      ∃ gap c rest, t = gap ++ c :: rest ∧
        (∀ x ∈ gap, isBlank x = true ∧ List.contains ";,\n".toList x = false) ∧
        List.contains ";,\n".toList c = true ∧ ∀ x ∈ rest, isFiller x = true := by
  induction t with
  | nil => exact Or.inl (List.forall_mem_nil _)
  | cons c t ih =>
    obtain ⟨hc, ht⟩ := List.forall_mem_cons.mp h
    by_cases hin : List.contains ";,\n".toList c = true
    · exact Or.inr ⟨[], c, t, rfl, List.forall_mem_nil _, hin, ht⟩
    · have hgap : isBlank c = true ∧ List.contains ";,\n".toList c = false :=
        ⟨(isFiller_iff.mp hc).resolve_right hin, by simpa using hin⟩
      rcases ih ht with hall | ⟨gap, d, rest, rfl, hblank, hd, hrest⟩
      · exact Or.inl (List.forall_mem_cons.mpr ⟨hgap, hall⟩)
      · exact Or.inr ⟨c :: gap, d, rest, rfl, List.forall_mem_cons.mpr ⟨hgap, hblank⟩, hd, hrest⟩

theorem exists_of_isSeparator {sep : Text} (h : isSeparator sep = true) :
    ∃ gap c rest, sep = gap ++ c :: rest ∧
      (∀ x ∈ gap, isBlank x = true ∧ List.contains ";,\n".toList x = false) ∧
      List.contains ";,\n".toList c = true ∧ ∀ x ∈ rest, isFiller x = true := by
  obtain ⟨hall, hany⟩ := Bool.and_eq_true_iff.mp h
  refine (fillers_cases (List.all_eq_true.mp hall)).resolve_left fun hblank => ?_
  obtain ⟨c, hc, hin⟩ := List.any_eq_true.mp hany
  rw [(hblank c hc).2] at hin
  cases hin

theorem listed_append_fillers {a : Text} (ha : ∀ c ∈ a, isFiller c = true) {ts : List Text}
    {u : Text} (h : Listed ";,\n".toList ts u) : Listed ";,\n".toList ts (a ++ u) := by
  induction a with
  | nil => exact h
  | cons c a ih =>
    obtain ⟨hc, hrest⟩ := List.forall_mem_cons.mp ha
    exact .filler c (isFiller_iff.mp hc) (ih hrest)

/-- Texts with separators between them are listed, with fillers behind the last. -/
theorem listed_inRow {sep : Nat → Text} (hsep : ∀ i, isSeparator (sep i) = true) {after : Text}
    (hafter : ∀ c ∈ after, isFiller c = true) (ts : List Text) :
    Listed ";,\n".toList ts (inRow sep ts ++ after) := by
  match ts with
  | [] =>
    have := listed_append_fillers hafter .nil
    rwa [List.append_nil] at this
  | [t] =>
    rcases fillers_cases hafter with hblank | ⟨gap, c, rest, rfl, hgap, hc, hrest⟩
    · exact .last t after hblank
    · have hnil := listed_append_fillers hrest .nil
      rw [List.append_nil] at hnil
      have := Listed.cons t gap c hgap hc hnil
      rwa [List.append_assoc] at this
  | t :: u :: ts =>
    obtain ⟨gap, c, rest, hs, hgap, hc, hrest⟩ := exists_of_isSeparator (hsep 0)
    have hmore := listed_append_fillers hrest
      (listed_inRow (fun i => hsep (i + 1)) hafter (u :: ts))
    have := Listed.cons t gap c hgap hc hmore
    rw [inRow, hs]
    simpa using this

/-- **In any style the members are listed.** -/
theorem Style.listed (s : Style) (ms : List Text) :
    Listed ";,\n".toList ms (s.before ++ (inRow s.between ms ++ s.after)) := by
  have hfill := List.forall_mem_append.mp s.fillers
  exact listed_append_fillers hfill.1 (listed_inRow s.separators hfill.2 ms)

/-! ## What object types have -/

/-- The properties of an object type. -/
def properties (n : TypeNode) : List (Property TypeNode) :=
  match n.shape with
  | .object properties _ => properties
  | _ => []

/-- The index type of an object type. -/
def additional? (n : TypeNode) : Option TypeNode :=
  match n.shape with
  | .object _ additional => additional
  | _ => none

theorem properties_braces {m : Text} (h : Nested m) :
    (parse ('{' :: (m ++ ['}']))).properties =
      ((members m).filterMap Member.property?).map (·.map (·.build parse)) := by
  rw [parse_braces h]
  rfl

theorem additional?_braces {m : Text} (h : Nested m) :
    (parse ('{' :: (m ++ ['}']))).additional? =
      ((members m).filterMap Member.index?).getLast?.map parse := by
  rw [parse_braces h]
  rfl

/-- **Listed members make an object type** that has the properties of each, in order, and the index
type of the last that has one. -/
theorem parse_listed {ms : List Text} {u : Text} (h : Listed ";,\n".toList ms u)
    (hms : ∀ m ∈ ms, Nested m) :
    (parse ('{' :: (u ++ ['}']))).shape =
      .object (ms.flatMap fun m => (parse ('{' :: (m ++ ['}']))).properties)
        (ms.filterMap fun m => (parse ('{' :: (m ++ ['}']))).additional?).getLast? := by
  obtain ⟨hnested, hmembers⟩ := members_listed h hms
  have hprops : ms.flatMap (fun m => (parse ('{' :: (m ++ ['}']))).properties) =
      ((ms.flatMap members).filterMap Member.property?).map (·.map (·.build parse)) := by
    rw [List.filterMap_flatMap, List.map_flatMap]
    exact List.flatMap_congr fun m hm => properties_braces (hms m hm)
  -- the last index type of all is that of the last member that has one
  have hindex : (ms.filterMap fun m => (parse ('{' :: (m ++ ['}']))).additional?).getLast? =
      ((ms.flatMap members).filterMap Member.index?).getLast?.map parse := by
    rw [List.filterMap_congr fun m hm => additional?_braces (hms m hm), List.filterMap_flatMap,
      List.getLast?_flatMap, List.getLast?_filterMap, List.map_findSome?]
    rfl
  rw [parse_braces hnested, hmembers, hprops, hindex]
  rfl

/-- **An object type is the same in all styles**: members that braces can stand around make the object
type that has the properties of each, in order, and the index type of the last that has one, whatever
stands between them. -/
theorem style_does_not_count {ms : List Text}
    (h : ∀ m ∈ ms, close? ('{' :: (m ++ ['}'])) 0 = some (m.length + 1)) (s : Style) :
    (parse (s.text ms)).shape =
        .object (ms.flatMap fun m => (parse ('{' :: (m ++ ['}']))).properties)
          (ms.filterMap fun m => (parse ('{' :: (m ++ ['}']))).additional?).getLast? ∧
      ∀ s' : Style, (parse (s'.text ms)).shape = (parse (s.text ms)).shape := by
  have hms : ∀ m ∈ ms, Nested m := fun m hm =>
    (close?_around_iff (by decide) (by decide) (by decide)).mp (h m hm)
  have hshape := fun s : Style => parse_listed (s.listed ms) hms
  exact ⟨hshape s, fun s' => (hshape s').trans (hshape s).symm⟩

/-- Each member on a line of its own. -/
def Style.lines : Style :=
  ⟨"\n".toList, fun _ => "\n".toList, "\n".toList, by decide, fun _ => by decide⟩

/-- All members on one line, with a comma behind each. -/
def Style.commas : Style :=
  ⟨" ".toList, fun _ => ", ".toList, ", ".toList, by decide, fun _ => by decide⟩

/-- A string, a generic type, an arrow with an object type behind it, and an index signature. -/
theorem style_does_not_count_lines_commas :
    (parse ("\x7b\nid: ';'\nm: Map<A, B>\nf: (a: A, b: B) => \x7b c: C \x7d\n".toList ++
        "[k: string]: \x7b d; \x7d\n\x7d".toList)).shape =
      (parse ("\x7b id: ';', m: Map<A, B>, f: (a: A, b: B) => \x7b c: C \x7d, ".toList ++
        "[k: string]: \x7b d; \x7d, \x7d".toList)).shape :=
  have h : ∀ m ∈ ["id: ';'".toList, "m: Map<A, B>".toList,
      "f: (a: A, b: B) => \x7b c: C \x7d".toList, "[k: string]: \x7b d; \x7d".toList],
      close? ('{' :: (m ++ ['}'])) 0 = some (m.length + 1) := by decide +kernel
  (style_does_not_count h .commas).2 .lines

end ExportSchema.TypeNode
