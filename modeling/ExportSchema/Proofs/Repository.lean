import ExportSchema.Proofs.Text.Split
import ExportSchema.Repository

/-!
# Where the files of repositories are

A file of a repository is named by a page URL. The repository service finds owner, repository,
reference and path by the places of the segments; the raw URL is found by dropping the first segment
that reads `blob`. The two name the same file unless the owner, and not the repository, is called
`blob`: then the owner is dropped instead of the mark.

* `Segment`: a text between two slashes of a URL.
* `FileRef.pageUrl`, `FileRef.rawPage`: the URL of the page of a file, and of the file itself.
* `FileRef.Plain`: a file whose names are segments.

Results:
* `split_hosted`: a page URL of the host can always be taken apart.
* `ofUrl_pageUrl`: the places of the segments give the file of its page.
* `replaceFirst_segment`, `rawUrl_pageUrl`: the mark that is dropped is the first segment `blob`.
* `raw_url_names_file_iff`: when the raw URL names the file of the page.
-/

namespace ExportSchema.Repository

open Text (splitOn replaceFirst)

/-! ## Page URLs -/

/-- A character that a URL keeps. -/
def isKept (c : Char) : Bool := c ≠ '\t' ∧ c ≠ '\r' ∧ c ≠ '\n'

/-- **A URL of the host can be taken apart**: the host part is that of the host, and a fragment and
a query are cut off behind it. -/
theorem split_hosted (rest : Text) :
    Url.split ("https://github.com/".toList ++ rest) =
      let (front, fragment) := Url.splitAt '#' ('/' :: rest.filter isKept)
      let (path, query) := Url.splitAt '?' front
      .ok ⟨"https".toList, "github.com".toList, path, query, fragment⟩ :=
  rfl

theorem moduleFileName_isOk (path : Text) : ∃ fileName, moduleFileName path = .ok fileName := by
  unfold moduleFileName
  by_cases h : isHosted path = true
  · obtain ⟨rest, rfl⟩ := Text.startsWith_iff.mp h
    rw [if_pos h, split_hosted]
    exact ⟨_, rfl⟩
  · exact ⟨path, if_neg h⟩

/-- A text between two slashes of a URL: it is not empty, and holds no slash, no mark of a query or
a fragment, and nothing that a URL loses. -/
structure Segment (t : Text) : Prop where
  ne_nil : t ≠ []
  chars : ∀ c ∈ t, c ∉ ['/', '?', '#', '\t', '\r', '\n']

theorem Segment.no_slash {t : Text} (h : Segment t) : '/' ∉ t := fun hmem =>
  h.chars '/' hmem (by decide)

/-- The URL of the page of a file. -/
def FileRef.pageUrl (f : FileRef) : Text :=
  "https://github.com/".toList ++ f.owner ++ '/' :: f.repo ++ "/blob/".toList ++ f.ref ++
    '/' :: f.path

/-- The URL of the file itself. -/
def FileRef.rawPage (f : FileRef) : Text :=
  "https://raw.githubusercontent.com/".toList ++ f.owner ++ '/' :: f.repo ++ '/' :: f.ref ++
    '/' :: f.path

/-- The names of the file are segments, and so are the parts of its path. -/
structure FileRef.Plain (f : FileRef) : Prop where
  owner : Segment f.owner
  repo : Segment f.repo
  ref : Segment f.ref
  path : ∃ first more, f.path = Text.join ['/'] (first :: more) ∧ ∀ s ∈ first :: more, Segment s

/-- What stands behind the host in the URL of a page, segment by segment. -/
def FileRef.pageRest (f : FileRef) : Text :=
  f.owner ++ '/' :: (f.repo ++ '/' :: ("blob".toList ++ '/' :: (f.ref ++ '/' :: f.path)))

theorem FileRef.pageUrl_eq (f : FileRef) :
    f.pageUrl = "https://github.com/".toList ++ f.pageRest := by
  have hmark : "/blob/".toList = '/' :: ("blob".toList ++ ['/']) := rfl
  unfold pageUrl pageRest
  rw [hmark]
  generalize "https://github.com/".toList = host
  generalize "blob".toList = mark
  simp

theorem FileRef.Plain.pageRest_eq {f : FileRef} (hf : f.Plain) :
    ∃ first more, f.path = Text.join ['/'] (first :: more) ∧
      f.pageRest = Text.join ['/'] (f.owner :: f.repo :: "blob".toList :: f.ref :: first :: more) ∧
      ∀ s ∈ f.owner :: f.repo :: "blob".toList :: f.ref :: first :: more, Segment s := by
  obtain ⟨first, more, hpath, hsegments⟩ := hf.path
  have hmark : Segment "blob".toList := ⟨by decide, by decide⟩
  refine ⟨first, more, hpath, ?_, ?_⟩
  · unfold pageRest
    generalize "blob".toList = mark
    simp only [Text.join, hpath, List.append_assoc, List.singleton_append]
  · simp only [List.forall_mem_cons]
    exact ⟨hf.owner, hf.repo, hmark, hf.ref, List.forall_mem_cons.mp hsegments⟩

theorem splitAt_of_not_mem {sep : Char} {t : Text} (h : sep ∉ t) : Url.splitAt sep t = (t, []) := by
  rw [Url.splitAt, Text.cut?_of_not_mem h]
  rfl

/-- A property of the slash and of the characters of all pieces holds of the joined text. -/
theorem forall_mem_join {p : Char → Prop} (hslash : p '/') {ps : List Text}
    (h : ∀ t ∈ ps, ∀ c ∈ t, p c) : ∀ c ∈ Text.join ['/'] ps, p c := by
  induction ps with
  | nil => exact fun c hc => absurd hc List.not_mem_nil
  | cons t ps ih =>
    obtain ⟨ht, hps⟩ := List.forall_mem_cons.mp h
    cases ps with
    | nil => exact ht
    | cons u ps =>
      rw [Text.join]
      refine List.forall_mem_append.mpr ⟨List.forall_mem_append.mpr ⟨ht, ?_⟩, ih hps⟩
      exact List.forall_mem_singleton.mpr hslash

theorem split_pageUrl {f : FileRef} (hf : f.Plain) :
    Url.split f.pageUrl =
      .ok ⟨"https".toList, "github.com".toList, '/' :: f.pageRest, [], []⟩ := by
  obtain ⟨first, more, -, hrest, hsegments⟩ := hf.pageRest_eq
  have hchars : ∀ c ∈ '/' :: f.pageRest, c ∉ ['?', '#', '\t', '\r', '\n'] := by
    refine List.forall_mem_cons.mpr ⟨by decide, ?_⟩
    rw [hrest]
    refine forall_mem_join (by decide) fun t ht c hc hmem => ?_
    exact (hsegments t ht).chars c hc (List.mem_cons_of_mem _ hmem)
  have hkept : f.pageRest.filter isKept = f.pageRest := by
    refine List.filter_eq_self.mpr fun c hc => ?_
    have := hchars c (List.mem_cons_of_mem _ hc)
    simp_all [isKept]
  rw [f.pageUrl_eq, split_hosted, hkept,
    splitAt_of_not_mem fun hmem => hchars '#' hmem (by decide)]
  simp only
  rw [splitAt_of_not_mem fun hmem => hchars '?' hmem (by decide)]

/-! ## By place -/

/-- **The places of the segments give the file of its page.** -/
theorem ofUrl_pageUrl {f : FileRef} (hf : f.Plain) : FileRef.ofUrl f.pageUrl = .ok f := by
  obtain ⟨first, more, hpath, hrest, hsegments⟩ := hf.pageRest_eq
  have hpieces : (splitOn '/' ('/' :: f.pageRest)).filter (!·.isEmpty) =
      f.owner :: f.repo :: "blob".toList :: f.ref :: first :: more := by
    have hcut : splitOn '/' ('/' :: f.pageRest) = [] :: splitOn '/' f.pageRest :=
      Text.splitOn_append [] f.pageRest
    rw [hcut, hrest, Text.splitOn_join (List.cons_ne_nil _ _) fun s hs => (hsegments s hs).no_slash,
      List.filter_cons_of_neg (by simp)]
    refine List.filter_eq_self.mpr fun s hs => ?_
    simpa using (hsegments s hs).ne_nil
  unfold FileRef.ofUrl
  rw [split_pageUrl hf]
  simp only [hpieces, if_true, ← hpath]

/-! ## By the mark -/

/-- **The mark that is dropped is the first segment that reads `blob`.** -/
theorem replaceFirst_segment {seg : Text} (hseg : '/' ∉ seg) (t : Text) :
    replaceFirst "/blob/".toList ['/'] ('/' :: (seg ++ '/' :: t)) =
      if seg = "blob".toList then '/' :: t
      else '/' :: (seg ++ replaceFirst "/blob/".toList ['/'] ('/' :: t)) := by
  have hmark : "/blob/".toList = '/' :: ("blob".toList ++ ['/']) := rfl
  split
  · rename_i h
    have hpiece := Text.replaceFirst_piece '/' ("blob".toList ++ ['/']) ['/'] t
    rw [h, hmark]
    simpa only [List.cons_append, List.append_assoc, List.nil_append] using hpiece
  · rename_i h
    have hafter : Text.after? "/blob/".toList ('/' :: (seg ++ '/' :: t)) = none := by
      refine Option.eq_none_iff_forall_not_mem.mpr fun rest hrest => h ?_
      have happ : "/blob/".toList ++ rest = '/' :: (seg ++ '/' :: t) :=
        List.isPrefixOf?_eq_some_iff_append_eq.mp hrest
      have htail : "blob".toList ++ '/' :: rest = seg ++ '/' :: t := by
        simpa only [hmark, List.cons_append, List.append_assoc, List.nil_append, List.cons.injEq,
          true_and] using happ
      exact (Text.append_inj_of_not_mem (by decide) hseg htail).1.symm
    rw [replaceFirst, hafter, hmark, Text.replaceFirst_append _ _ hseg]

theorem FileRef.rawPage_eq (f : FileRef) :
    f.rawPage = "https://raw.githubusercontent.com/".toList ++
      (f.owner ++ '/' :: (f.repo ++ '/' :: (f.ref ++ '/' :: f.path))) := by
  unfold rawPage
  generalize "https://raw.githubusercontent.com/".toList = host
  simp

/-- The URL of a file names its owner. -/
theorem FileRef.owner_of_rawPage {f g : FileRef} (hf : '/' ∉ f.owner) (hg : '/' ∉ g.owner)
    (h : f.rawPage = g.rawPage) : f.owner = g.owner := by
  rw [rawPage_eq, rawPage_eq] at h
  exact (Text.append_inj_of_not_mem hf hg (List.append_cancel_left h)).1

theorem text_raw (path : Text) :
    Url.text ⟨"https".toList, rawHost, '/' :: path, [], []⟩ =
      "https://raw.githubusercontent.com/".toList ++ path := by
  show "https:".toList ++ "//".toList ++ rawHost ++ '/' :: path ++ [] ++ [] = _
  rw [List.append_nil, List.append_nil]
  rfl

/-- **The raw URL of a page** is that of its file, unless the owner is called `blob`: then it is
that of a file in the repository `blob` of an owner named as the repository. -/
theorem rawUrl_pageUrl {f : FileRef} (hf : f.Plain) :
    rawUrl f.pageUrl = .ok (FileRef.rawPage
      (if f.owner = "blob".toList then ⟨f.repo, "blob".toList, f.ref, f.path⟩ else f)) := by
  have hpath : replaceFirst "/blob/".toList ['/'] ('/' :: f.pageRest) =
      if f.owner = "blob".toList then
        '/' :: (f.repo ++ '/' :: ("blob".toList ++ '/' :: (f.ref ++ '/' :: f.path)))
      else '/' :: (f.owner ++ '/' :: (f.repo ++ '/' :: (f.ref ++ '/' :: f.path))) := by
    rw [FileRef.pageRest, replaceFirst_segment hf.owner.no_slash,
      replaceFirst_segment hf.repo.no_slash,
      replaceFirst_segment (show '/' ∉ "blob".toList by decide)]
    by_cases hrepo : f.repo = "blob".toList
    · rw [if_pos hrepo, ← hrepo]
    · rw [if_neg hrepo, if_pos rfl]
  unfold rawUrl
  rw [split_pageUrl hf]
  show Except.ok (Url.text ⟨_, rawHost, replaceFirst _ _ _, _, _⟩) = _
  rw [hpath]
  split
  · rw [text_raw, FileRef.rawPage_eq]
  · rw [text_raw, FileRef.rawPage_eq]

/-- **When the raw URL names the file of a page.** The places of the segments always give the file
that the page is of. The raw URL is that of the same file iff the owner is not called `blob`, or the
repository is, too; with such an owner it is that of a file in the repository `blob` of the owner
that is named as the repository. -/
theorem raw_url_names_file_iff {owner repo ref : Text} {segments : List Text}
    (howner : Segment owner) (hrepo : Segment repo) (href : Segment ref) (hne : segments ≠ [])
    (hsegments : ∀ s ∈ segments, Segment s) :
    let file : FileRef := ⟨owner, repo, ref, Text.join ['/'] segments⟩
    FileRef.ofUrl file.pageUrl = .ok file ∧
      (rawUrl file.pageUrl = .ok file.rawPage ↔
        (owner = "blob".toList → repo = "blob".toList)) ∧
      (owner = "blob".toList →
        rawUrl file.pageUrl =
          .ok (FileRef.rawPage { file with owner := repo, repo := owner })) := by
  intro file
  have hfile : file.Plain := by
    obtain ⟨first, more, rfl⟩ := List.exists_cons_of_ne_nil hne
    exact ⟨howner, hrepo, href, first, more, rfl, hsegments⟩
  refine ⟨ofUrl_pageUrl hfile, ?_, fun h => ?_⟩
  · rw [rawUrl_pageUrl hfile]
    constructor
    · intro hsame hblob
      rw [if_pos hblob, Except.ok.injEq] at hsame
      exact (FileRef.owner_of_rawPage hrepo.no_slash howner.no_slash hsame).trans hblob
    · intro himp
      by_cases hblob : owner = "blob".toList
      · obtain rfl : owner = repo := hblob.trans (himp hblob).symm
        rw [if_pos hblob, ← hblob]
      · rw [if_neg hblob]
  · rw [rawUrl_pageUrl hfile, if_pos h, h]

/-- The mark is found although the reference and a directory are called `blob`, too. -/
theorem raw_url_names_file_of_marks :
    let file : FileRef := ⟨"acme".toList, "widgets".toList, "blob".toList,
      Text.join ['/'] ["blob".toList, "x.ts".toList]⟩
    Segment "acme".toList ∧ Segment "widgets".toList ∧ Segment "blob".toList ∧
      Segment "x.ts".toList ∧
      FileRef.ofUrl file.pageUrl = .ok file ∧ rawUrl file.pageUrl = .ok file.rawPage := by
  intro file
  have howner : Segment "acme".toList := ⟨by decide, by decide⟩
  have hrepo : Segment "widgets".toList := ⟨by decide, by decide⟩
  have href : Segment "blob".toList := ⟨by decide, by decide⟩
  have hfile : Segment "x.ts".toList := ⟨by decide, by decide⟩
  have hsegments : ∀ s ∈ ["blob".toList, "x.ts".toList], Segment s :=
    List.forall_mem_cons.mpr ⟨href, List.forall_mem_singleton.mpr hfile⟩
  obtain ⟨hplace, hraw, -⟩ :=
    raw_url_names_file_iff howner hrepo href (List.cons_ne_nil _ _) hsegments
  exact ⟨howner, hrepo, href, hfile, hplace, hraw.mpr fun h => absurd h (by decide)⟩

/-- The raw URL of a page of the owner `blob` is that of a file of another owner. -/
theorem raw_url_of_owner_blob :
    let file : FileRef := ⟨"blob".toList, "widgets".toList, "main".toList, "x.ts".toList⟩
    let other : FileRef := ⟨"widgets".toList, "blob".toList, "main".toList, "x.ts".toList⟩
    file.pageUrl = "https://github.com/blob/widgets/blob/main/x.ts".toList ∧
      other.rawPage = "https://raw.githubusercontent.com/widgets/blob/main/x.ts".toList ∧
      FileRef.ofUrl file.pageUrl = .ok file ∧ rawUrl file.pageUrl = .ok other.rawPage ∧
      rawUrl file.pageUrl ≠ .ok file.rawPage := by
  intro file other
  have hfile : file.Plain := by
    refine ⟨⟨by decide, by decide⟩, ⟨by decide, by decide⟩, ⟨by decide, by decide⟩, _, [], rfl, ?_⟩
    exact List.forall_mem_singleton.mpr ⟨by decide, by decide⟩
  have hraw : rawUrl file.pageUrl = .ok other.rawPage := (rawUrl_pageUrl hfile).trans rfl
  refine ⟨by decide, by decide, ofUrl_pageUrl hfile, hraw, fun h => ?_⟩
  rw [hraw, Except.ok.injEq] at h
  have howner : other.owner = file.owner := FileRef.owner_of_rawPage (by decide) (by decide) h
  exact absurd howner (by decide)

end ExportSchema.Repository
