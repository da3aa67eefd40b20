import ExportSchema.Proofs.TypeNode.QuotedKey
import ExportSchema.Proofs.TypeNode.Weight

/-!
# Names without quotes

A name that stands before the colon as it is, without quotes, is read back iff nothing in it means
anything there: no delimiter at the top level, no bracket that does not match, no parenthesis, and no
mark at its ends.

That a name is read back says more than it seems to. The names and types that are read from a text are
parts of it, and no two of them overlap. When they weigh as much as the text does without its
punctuation, nothing else is in the text, so each name is all that stands before its colon.

* `BareName`: a name that can stand without quotes.
* `Entry`: a name and the keyword type that is written behind it.

Results:
* `BareName.member?_line`: a bare name is read back.
* `name_of_member?`: a name that was read is lighter than what stands before the colon, or it is all of
  that and bare.
* `weight_of_part`: an entry is no heavier than the part that it was read from.
* `weight_entries`: what is read as entries is at least as heavy as they are, and if it is no heavier,
  all their names are bare.
-/

namespace ExportSchema.TypeNode

open Text (trim isBlank weight weight_append weight_trim weight_le_of_sublist)
open Lexeme ExportSchema.Bracket

/-! ## Bare names -/

/-- A name that can stand before the colon without quotes. -/
structure BareName (name : Text) : Prop where
  front : Front name
  named : Named name
  notCall : '(' ∉ name
  notOptional : name.getLast? ≠ some '?'
  notQuoted : unquote name = name

instance (name : Text) : Decidable (BareName name) :=
  decidable_of_iff (Front name ∧ Named name ∧ '(' ∉ name ∧ name.getLast? ≠ some '?' ∧
    unquote name = name) ⟨fun ⟨a, b, c, d, e⟩ => ⟨a, b, c, d, e⟩,
      fun ⟨a, b, c, d, e⟩ => ⟨a, b, c, d, e⟩⟩

/-- **A bare name is read back.** -/
theorem BareName.member?_line {name : Text} (h : BareName name) {type : Text}
    (ht : trim type = type) :
    member? (name ++ ':' :: ' ' :: type) = some (.property ⟨name, .text type, false⟩) := by
  have hsplit := splitOptional_mark h.front.trimmed h.notOptional false
  rw [markedName, if_neg Bool.false_ne_true, List.append_nil] at hsplit
  rw [member?_property (h.front.cutAt?_line type) (h.front.trimmed.symm ▸ h.named)
    (h.front.trimmed.symm ▸ h.notCall), h.front.trimmed, Text.trim_cons (c := ' ') rfl, ht, hsplit,
    h.notQuoted]

/-! ## Names that were read -/

theorem splitOptional_of_unmarked {t : Text} (h : (splitOptional t).2 = false) :
    (splitOptional t).1 = trim t ∧ t.getLast? ≠ some '?' := by
  have hlast : t.getLast? ≠ some '?' := of_decide_eq_false h
  refine ⟨?_, hlast⟩
  unfold splitOptional
  rw [stripEndWith_of_getLast? hlast]

/-- **A name that was read is lighter than what stands before the colon**, or it is all of that, and
nothing in it meant anything. -/
theorem name_of_member? {raw name type : Text}
    (h : member? raw = some (.property ⟨name, .text type, false⟩)) :
    ∃ a b, cutAt? [':'] raw = some (a, b) ∧ type = trim b ∧
      (weight name < weight a ∨ name = trim a ∧ (Front name → BareName name)) := by
  unfold member? at h
  obtain ⟨⟨a, b⟩, hcut, h⟩ := Option.bind_eq_some_iff.mp h
  refine ⟨a, b, hcut, ?_⟩
  have hread := dropReadonly_eq_or_lt (trim a)
  have hle := weight_dropReadonly_le (trim a)
  rw [weight_trim] at hread hle
  simp only at h
  generalize hn : dropReadonly (trim a) = n at h hread hle
  split at h
  · cases h
  rename_i hindex
  split at h
  · cases h
  rename_i hself
  split at h
  · -- a getter
    obtain ⟨p, hp, h⟩ := Option.bind_eq_some_iff.mp h
    cases h
    obtain ⟨rfl, hweight⟩ := weight_methodMember? hp
    rw [weight_trim, weight_trim, ← weight_append, List.takeWhile_append_dropWhile] at hweight
    exact ⟨rfl, Or.inl (by omega)⟩
  · rename_i hparen
    simp only [Option.pure_def, Option.some.injEq, Member.property.injEq, Property.mk.injEq,
      Part.text.injEq] at h
    obtain ⟨rfl, rfl, hopt⟩ := h
    refine ⟨rfl, ?_⟩
    obtain ⟨hsplit, hlast⟩ := splitOptional_of_unmarked hopt
    rcases hread with rfl | hlt
    · rw [hsplit, Text.trim_trim]
      rcases unquote_eq_or_lt (trim a) with heq | hlt
      · rw [heq]
        refine Or.inr ⟨rfl, fun hfront => ⟨hfront, ⟨hn, ?_, ?_⟩, ?_, hlast, heq⟩⟩
        · simpa using hindex
        · simpa using hself
        · simpa using hparen
      · rw [weight_trim] at hlt
        exact Or.inl hlt
    · have hname := weight_unquote_le (splitOptional n).1
      have hle := weight_splitOptional_le n
      exact Or.inl (by omega)

/-! ## Entries -/

/-- A name and the keyword type that is written behind it. -/
structure Entry where
  name : Text
  type : Text

/-- The property that an entry is meant to be. -/
def Entry.property (e : Entry) : Property TypeNode :=
  ⟨e.name, .plain e.type (.primitive e.type), false⟩

/-- The weight of an entry, with its colon and the delimiter behind it. -/
def Entry.weight (e : Entry) : Nat := Text.weight e.name + Text.weight e.type + 2

/-- Parts that cost no less than what they yield cost as much only if each of them yields its cost. -/
theorem sum_filterMap_le {α β : Type} {f : α → Option β} {cost : α → Nat} {need : β → Nat}
    {as : List α} (hpos : ∀ a ∈ as, 0 < cost a)
    (hle : ∀ a ∈ as, ∀ b, f a = some b → need b ≤ cost a) :
    ((as.filterMap f).map need).sum ≤ (as.map cost).sum ∧
      ((as.map cost).sum ≤ ((as.filterMap f).map need).sum →
        ∀ a ∈ as, ∃ b, f a = some b ∧ cost a ≤ need b) := by
  induction as with
  | nil => exact ⟨Nat.le_refl _, fun _ => List.forall_mem_nil _⟩
  | cons a as ih =>
    obtain ⟨hposa, hposas⟩ := List.forall_mem_cons.mp hpos
    obtain ⟨hlea, hleas⟩ := List.forall_mem_cons.mp hle
    obtain ⟨hsum, hexact⟩ := ih hposas hleas
    cases hf : f a with
    | none =>
      rw [List.filterMap_cons_none hf, List.map_cons, List.sum_cons]
      exact ⟨by omega, fun h => by omega⟩
    | some b =>
      have hb := hlea b hf
      rw [List.filterMap_cons_some hf, List.map_cons, List.map_cons, List.sum_cons, List.sum_cons]
      refine ⟨by omega, fun h => List.forall_mem_cons.mpr ⟨⟨b, hf, by omega⟩, hexact (by omega)⟩⟩

/-- What a part of the members between braces says about a property. -/
def propertyOf? (part : Text) : Option (Property Part) := (member? (trim part)).bind Member.property?

theorem filterMap_members (inside : Text) :
    (members inside).filterMap Member.property? =
      (split ";,\n".toList inside none).filterMap propertyOf? := by
  have hempty : (fun t : Text => if !t.isEmpty then member? t else none) = member? := by
    funext t
    cases t <;> rfl
  unfold members
  rw [List.filterMap_filter, hempty, List.filterMap_filterMap, List.filterMap_map]
  rfl

/-- **An entry is no heavier than the part that it was read from**, and if it is as heavy, its name is
bare. -/
theorem weight_of_part {inside part : Text} (hin : Nested inside)
    (hp : part ∈ split ";,\n".toList inside none) {p : Property Part}
    (hf : propertyOf? part = some p) {e : Entry} (he : p.map (·.build parse) = e.property) :
    e.weight ≤ weight part + 1 ∧ (weight part + 1 ≤ e.weight → BareName e.name) := by
  have hd : ∀ c ∈ ";,\n".toList, isPlain c = true ∧ c ≠ '=' := by decide
  obtain ⟨m, hm, hmp⟩ := Option.bind_eq_some_iff.mp hf
  obtain rfl : m = .property p := by
    cases m <;> cases hmp
    rfl
  obtain ⟨name, part', optional⟩ := p
  simp only [Property.map, Entry.property, Property.mk.injEq] at he
  obtain ⟨rfl, htype, rfl⟩ := he
  cases part' with
  | method text params returns => cases htype
  | text type =>
    obtain ⟨a, b, hcut, rfl, hname⟩ := name_of_member? hm
    have hle := weight_cutAt? hcut
    have htext := weight_text_parse_le (trim b)
    rw [show parse (trim b) = _ from htype, weight_trim] at htext
    rw [weight_trim] at hle
    change weight e.type ≤ weight b at htext
    unfold Entry.weight
    rcases hname with hlt | ⟨hname, hbare⟩
    · exact ⟨by omega, fun h => by omega⟩
    · have hsame : weight e.name = weight a := by rw [hname, weight_trim]
      refine ⟨by omega, fun _ => hbare ?_⟩
      have hnested := (nested_of_mem_split hd hin hp).trim
      have hclear := clearFrom_trim_of_clear (clearFrom_of_mem_split (by decide) hp)
      have hcolon : clearFrom [':'] .start a = true := by
        obtain ⟨c, -, hcolon, -⟩ := exists_of_cutAt? hcut
        exact hcolon
      have hends : clearFrom ";,\n".toList .start a = true := by
        obtain ⟨c, happ, -⟩ := exists_of_cutAt? hcut
        rw [happ] at hclear
        exact (clearFrom_append.mp hclear).1
      have hall : clearFrom ":;,\n".toList .start a = true :=
        clearFrom_append_delims.mpr ⟨hcolon, hends⟩
      rw [hname]
      exact ⟨(hnested.of_cutAt? hcut).trim, clearFrom_trim_of_clear hall, Text.trim_trim a⟩

/-- The weight of a property that was read, with its colon and the delimiter behind it. -/
def propertyWeight (p : Property TypeNode) : Nat := weight p.name + weight p.type.text + 2

/-- Members between braces that are read as entries are no lighter than these. -/
theorem weight_members {inside : Text} (hin : Nested inside) (hline : '\n' ∉ inside)
    {entries : List Entry}
    (h : ((members inside).filterMap Member.property?).map (·.map (·.build parse)) =
      entries.map Entry.property) :
    (entries.map Entry.weight).sum ≤ weight inside + 1 ∧
      (weight inside + 1 ≤ (entries.map Entry.weight).sum → ∀ e ∈ entries, BareName e.name) := by
  rw [filterMap_members] at h
  have hcost : ((split ";,\n".toList inside none).map fun part => weight part + 1).sum =
      weight inside + 1 := by
    refine weight_split fun c hc hd => ?_
    have hall : ∀ c ∈ ";,\n".toList, c ≠ '\n' → isBlank c = false := by decide
    exact hall c (List.contains_iff_mem.mp hd) fun he => hline (he ▸ hc)
  have hneed : (((split ";,\n".toList inside none).filterMap propertyOf?).map fun p =>
      propertyWeight (p.map (·.build parse))).sum = (entries.map Entry.weight).sum := by
    have hmap := congrArg (List.map propertyWeight) h
    rw [List.map_map, List.map_map] at hmap
    exact congrArg List.sum hmap
  have hentry : ∀ p ∈ (split ";,\n".toList inside none).filterMap propertyOf?,
      ∃ e ∈ entries, p.map (·.build parse) = e.property := by
    intro p hp
    have hmem := List.mem_map_of_mem (f := (·.map (·.build parse))) hp
    rw [h] at hmem
    obtain ⟨e, he, heq⟩ := List.mem_map.mp hmem
    exact ⟨e, he, heq.symm⟩
  have hle : ∀ part ∈ split ";,\n".toList inside none, ∀ p, propertyOf? part = some p →
      propertyWeight (p.map (·.build parse)) ≤ weight part + 1 := by
    intro part hpart p hp
    obtain ⟨e, -, he⟩ := hentry p (List.mem_filterMap.mpr ⟨part, hpart, hp⟩)
    rw [he]
    exact (weight_of_part hin hpart hp he).1
  have hpos : ∀ part ∈ split ";,\n".toList inside none, 0 < weight part + 1 :=
    fun _ _ => Nat.succ_pos _
  obtain ⟨hsum, hexact⟩ := sum_filterMap_le hpos hle
  rw [hneed, hcost] at hsum hexact
  refine ⟨hsum, fun hge e he => ?_⟩
  have hmem := List.mem_map_of_mem (f := Entry.property) he
  rw [← h] at hmem
  obtain ⟨p, hp, heq⟩ := List.mem_map.mp hmem
  obtain ⟨part, hpart, hread⟩ := List.mem_filterMap.mp hp
  obtain ⟨q, hq, hweight⟩ := hexact hge part hpart
  cases hread.symm.trans hq
  rw [heq] at hweight
  exact (weight_of_part hin hpart hread heq).2 hweight

/-- **What is read as entries is at least as heavy as they are**, and if it is no heavier, all their
names are bare. -/
theorem weight_entries {t : Text} (hline : '\n' ∉ t) {entries : List Entry}
    {additional : Option TypeNode}
    (h : (parse t).shape = .object (entries.map Entry.property) additional) :
    (entries.map Entry.weight).sum + 1 ≤ weight t ∧
      (weight t ≤ (entries.map Entry.weight).sum + 1 → ∀ e ∈ entries, BareName e.name) := by
  induction t using wellFounded_calls.induction with
  | h t ih =>
    -- a text that stands for another one is heavier than it has to be
    have hthrough : ∀ m, layer t = .same m ∨ layer t = .orNull m →
        (parse m).shape = (parse t).shape →
        (entries.map Entry.weight).sum + 1 ≤ weight t ∧
          (weight t ≤ (entries.map Entry.weight).sum + 1 → ∀ e ∈ entries, BareName e.name) := by
      intro m hm hshape
      obtain ⟨hsub, hlt⟩ := layer_through hm
      obtain ⟨hle, -⟩ := ih m (calls_of_through hm) (fun hmem => hline (hsub.subset hmem))
        (hshape.trans h)
      exact ⟨by omega, fun hge => by omega⟩
    have hparse := parse_eq t
    cases hl : layer t with
    | same inner =>
      rw [hl] at hparse
      exact hthrough inner (Or.inl hl) (by rw [hparse]; rfl)
    | orNull inner =>
      rw [hl] at hparse
      exact hthrough inner (Or.inr hl) (by rw [hparse]; rfl)
    | node text nullable shape =>
      rw [hparse, hl] at h
      cases shape with
      | object properties additional =>
        obtain ⟨-, inside, c, hgroup, hb, rfl⟩ := takenFrom_of_layer hl
        have hsub : (dropReadonly (trim t)).Sublist t :=
          (sublist_dropReadonly _).trans (Text.sublist_trim t)
        have hle := weight_le_of_sublist hsub
        rw [hgroup] at hsub
        rw [hgroup, weight_group rfl hb.isCloser] at hle
        have hinside : '\n' ∉ inside := fun hmem => hline (hsub.subset (by simp [hmem]))
        obtain ⟨hsum, hexact⟩ := weight_members hb.nested hinside (Shape.object.inj h).1
        exact ⟨by omega, fun hge => hexact (by omega)⟩
      | _ => cases h

end ExportSchema.TypeNode
