import ApiReference.Proofs.Document.Course
import ApiReference.Proofs.Document.Header
import ApiReference.Proofs.Document.Sections
import ApiReference.Proofs.Html.Spacing
import ApiReference.Proofs.Markdown.Lines

/-!
# One empty line between the parts of a document

Every part of a document is solid text and one empty line behind it (`Block`), or is left out (`Spaced`). Parts that are
put one behind another are such a part again, so it is enough to look at each by itself.

- `Solid` text begins and ends with a character that is no newline and has no three newlines in a row. Lines, tables
  and the Markdown of HTML are solid (`solid_line`, `solid_renderTable`, `solid_toMarkdown`);
- the section of an entry is a block if what it shows verbatim keeps its lines (`KeepsLines`, `block_entry`), and so is
  a document of such sections (`render_plain_spacing`);
- the parts of the frame are blocks as well, but for the description of the package, which is not left out if it is
  empty. `render_readme_spacing` says what becomes of a README.
-/

namespace ApiReference.Document

/-! ## Solid text -/

/-- The text begins and ends with a character that is no newline, and has no three newlines in a row. -/
structure Solid (s : Text) : Prop where
  first : ∃ c t, s = c :: t ∧ c ≠ '\n'
  last : ∃ t c, s = t ++ [c] ∧ c ≠ '\n'
  apart : ¬ "\n\n\n".toList <:+: s

/-- No three newlines in a row come about where one of two texts has another character. -/
theorem not_isInfix_append {s t : Text} (hs : ¬ "\n\n\n".toList <:+: s) (ht : ¬ "\n\n\n".toList <:+: t)
    (hst : (∃ s' c, s = s' ++ [c] ∧ c ≠ '\n') ∨ ∃ c t', t = c :: t' ∧ c ≠ '\n') : ¬ "\n\n\n".toList <:+: s ++ t := by
  intro h
  rcases List.infix_append_iff.mp h with h | h | ⟨l₁, l₂, hl, h₁, h₂⟩
  · exact hs h
  · exact ht h
  · have hall : ∀ c ∈ l₁ ++ l₂, c = '\n' := by
      rw [← hl]
      intro c hc
      simpa using hc
    rcases hst with ⟨s', c, rfl, hc⟩ | ⟨c, t', rfl, hc⟩
    · rcases List.suffix_concat_iff.mp h₁ with rfl | ⟨l, rfl, -⟩
      · exact ht (hl ▸ h₂.isInfix)
      · exact hc (hall c (by simp))
    · rcases List.prefix_cons_iff.mp h₂ with rfl | ⟨l, rfl, -⟩
      · rw [List.append_nil] at hl
        exact hs (hl ▸ h₁.isInfix)
      · exact hc (hall c (by simp))

/-- Solid texts with something between them that has no three newlines in a row. -/
theorem Solid.join {s m t : Text} (hs : Solid s) (hm : ¬ "\n\n\n".toList <:+: m) (ht : Solid t) :
    Solid (s ++ m ++ t) where
  first := by
    obtain ⟨c, s', rfl, hc⟩ := hs.first
    exact ⟨c, s' ++ m ++ t, rfl, hc⟩
  last := by
    obtain ⟨t', c, rfl, hc⟩ := ht.last
    exact ⟨s ++ m ++ t', c, by rw [List.append_assoc (s ++ m)], hc⟩
  apart := not_isInfix_append (not_isInfix_append hs.apart hm (.inl hs.last)) ht.apart (.inr ht.first)

/-- A line is solid. -/
theorem solid_line {s : Text} (hne : s ≠ []) (h : '\n' ∉ s) : Solid s where
  first := by
    obtain ⟨c, t, rfl⟩ := List.exists_cons_of_ne_nil hne
    exact ⟨c, t, rfl, fun he => h (he ▸ List.mem_cons_self)⟩
  last := by
    obtain ⟨t, c, rfl⟩ := (List.eq_nil_or_concat s).resolve_left hne
    exact ⟨t, c, by simp, fun he => h (by simp [he])⟩
  apart := fun hs => h (hs.subset (by decide))

/-- Solid texts on lines of their own. -/
theorem solid_intercalate {ls : List Text} (hne : ls ≠ []) (h : ∀ l ∈ ls, Solid l) :
    Solid (List.intercalate ['\n'] ls) := by
  induction ls with
  | nil => exact absurd rfl hne
  | cons l ls ih =>
    cases ls with
    | nil => simpa using h l List.mem_cons_self
    | cons l' ls =>
      rw [List.intercalate_cons_cons]
      have hl := h l List.mem_cons_self
      exact hl.join (by decide) (ih (List.cons_ne_nil l' ls) fun l hl => h l (List.mem_cons_of_mem _ hl))

theorem newline_not_mem_intercalate {sep : Text} {xs : List Text} (hsep : '\n' ∉ sep) (h : ∀ x ∈ xs, '\n' ∉ x) :
    '\n' ∉ List.intercalate sep xs := by
  rw [Markdown.mem_intercalate_iff hsep]
  rintro ⟨x, hx, hn⟩
  exact h x hx hn

theorem solid_renderTable {header : List Text} (h : 1 ≤ header.length) (body : List (List Text)) :
    Solid (Markdown.renderTable (header :: body)) := by
  rw [Markdown.renderTable_eq h]
  refine solid_intercalate (by simp [Markdown.fittedRows]) ?_
  simp only [Markdown.fittedRows, List.map_map, List.mem_map]
  rintro _ ⟨cells, -, rfl⟩
  exact solid_line (List.cons_ne_nil _ _) (Markdown.newline_not_mem_line Markdown.newline_not_mem_fittedRow)

/-- A text without white space at its ends and without three newlines in a row is solid. -/
theorem solid_of_ends {s : Text} (hne : s ≠ []) (hhead : ∀ c, s.head? = some c → Text.isWhiteSpace c = false)
    (hlast : ∀ c, s.getLast? = some c → Text.isWhiteSpace c = false) (h : ¬ "\n\n\n".toList <:+: s) : Solid s := by
  have hnewline : ∀ c, Text.isWhiteSpace c = false → c ≠ '\n' := by
    rintro c hc rfl
    exact absurd hc (by decide)
  refine ⟨?_, ?_, h⟩
  · obtain ⟨c, t, rfl⟩ := List.exists_cons_of_ne_nil hne
    exact ⟨c, t, rfl, hnewline c (hhead c rfl)⟩
  · obtain ⟨t, c, rfl⟩ := (List.eq_nil_or_concat s).resolve_left hne
    rw [List.concat_eq_append] at hlast ⊢
    exact ⟨t, c, rfl, hnewline c (hlast c (List.getLast?_concat ..))⟩

theorem solid_toMarkdown {html : Text} (h : Html.toMarkdown html ≠ []) : Solid (Html.toMarkdown html) :=
  solid_of_ends h (fun _ => Text.head_trim) (fun _ => Text.getLast_trim) (Html.noBlankRun_toMarkdown html).not_isInfix

/-! ## Blocks -/

/-- Solid text and one empty line behind it. -/
def Block (t : Text) : Prop :=
  ∃ s, Solid s ∧ t = s ++ "\n\n".toList

/-- A block, unless it is left out. -/
def Spaced (t : Text) : Prop :=
  t = [] ∨ Block t

theorem Block.append {s t : Text} (hs : Block s) (ht : Block t) : Block (s ++ t) := by
  obtain ⟨s, hs, rfl⟩ := hs
  obtain ⟨t, ht, rfl⟩ := ht
  exact ⟨s ++ "\n\n".toList ++ t, hs.join (by decide) ht, by rw [List.append_assoc _ t]⟩

theorem Block.append_spaced {s t : Text} (hs : Block s) (ht : Spaced t) : Block (s ++ t) := by
  rcases ht with rfl | ht
  · rwa [List.append_nil]
  · exact hs.append ht

theorem Spaced.append_block {s t : Text} (hs : Spaced s) (ht : Block t) : Block (s ++ t) := by
  rcases hs with rfl | hs
  · exact ht
  · exact hs.append ht

theorem Spaced.append {s t : Text} (hs : Spaced s) (ht : Spaced t) : Spaced (s ++ t) := by
  rcases hs with rfl | hs
  · exact ht
  · exact .inr (hs.append_spaced ht)

theorem spaced_flatMap {α : Type} {f : α → Text} {as : List α} (h : ∀ a ∈ as, Spaced (f a)) :
    Spaced (as.flatMap f) := by
  induction as with
  | nil => exact .inl rfl
  | cons a as ih =>
    rw [List.flatMap_cons]
    exact (h a List.mem_cons_self).append (ih fun a ha => h a (List.mem_cons_of_mem _ ha))

/-- A block has no three newlines in a row. -/
theorem Block.apart {t : Text} (h : Block t) : ¬ "\n\n\n".toList <:+: t := by
  obtain ⟨s, hs, rfl⟩ := h
  exact not_isInfix_append hs.apart (by decide) (.inl hs.last)

/-- A block ends with exactly two newlines. -/
theorem Block.ends {t : Text} (h : Block t) : ∃ s c, t = s ++ [c, '\n', '\n'] ∧ c ≠ '\n' := by
  obtain ⟨s, hs, rfl⟩ := h
  obtain ⟨s, c, rfl, hc⟩ := hs.last
  exact ⟨s, c, List.append_assoc .., hc⟩

theorem block_line {s : Text} (hne : s ≠ []) (h : '\n' ∉ s) : Block (s ++ "\n\n".toList) :=
  ⟨s, solid_line hne h, rfl⟩

/-! ## The section of an entry -/

/-- What an entry shows as it was written keeps its lines: no newline in a heading or in the line on the returned
value, and no three in a row in a sample. -/
structure KeepsLines (name : Text) (e : Entry) : Prop where
  name : '\n' ∉ name
  params : ∀ field ∈ e.params, '\n' ∉ field.name
  types : ∀ value, e.returns? = some value → ∀ type ∈ value.types, '\n' ∉ type
  samples : ∀ code ∈ e.samples, ¬ "\n\n\n".toList <:+: "\n".toList ++ code ++ "\n".toList

theorem block_heading {name : Text} {params : List FieldDoc} (hname : '\n' ∉ name)
    (hparams : ∀ field ∈ params, '\n' ∉ field.name) : Block (appendHeading [] name params) := by
  unfold appendHeading
  by_cases hempty : params.isEmpty = true
  · rw [if_pos hempty]
    exact block_line (by simp) (by simp [hname])
  · rw [if_neg hempty]
    have harguments : '\n' ∉ List.intercalate ", ".toList (params.map FieldDoc.name) := by
      refine newline_not_mem_intercalate (by decide) ?_
      simpa using hparams
    have hline : '\n' ∉ "### ".toList ++ name ++ ['('] ++ List.intercalate ", ".toList (params.map FieldDoc.name) ++
        [')'] := by
      have hopened : '\n' ∉ "### ".toList ++ name ++ ['('] :=
        List.not_mem_append (List.not_mem_append (by decide) hname) (by decide)
      exact List.not_mem_append (List.not_mem_append hopened harguments) (by decide)
    have hblock := block_line (by simp) hline
    rwa [List.append_assoc _ [')']] at hblock

theorem spaced_paragraph (html : Text) : Spaced (appendParagraph [] html) := by
  unfold appendParagraph
  by_cases hempty : (Html.toMarkdown html).isEmpty = true
  · exact .inl (if_pos hempty)
  · have hne : Html.toMarkdown html ≠ [] := fun he => hempty (by rw [he]; rfl)
    exact .inr ⟨_, solid_toMarkdown hne, if_neg hempty⟩

theorem spaced_fields {title : Text} (htitle : '\n' ∉ title) (column : Text) (fields : List FieldDoc) :
    Spaced (appendFields [] title column fields) := by
  unfold appendFields
  by_cases hempty : fields.isEmpty = true
  · exact .inl (if_pos hempty)
  · rw [if_neg hempty]
    have hheading : Block ("### ".toList ++ title ++ "\n\n".toList) := block_line (by simp) (by simp [htitle])
    have htable : Block (Markdown.renderTable ([column, "type".toList, "description".toList] :: fields.map fieldRow) ++
        "\n\n".toList) := ⟨_, solid_renderTable (by simp) _, rfl⟩
    have hblock := hheading.append htable
    rw [← List.append_assoc] at hblock
    exact .inr hblock

theorem block_sample {code : Text} (h : ¬ "\n\n\n".toList <:+: "\n".toList ++ code ++ "\n".toList) :
    Block (appendSample [] code) := by
  have hopening : Solid "```js".toList := solid_line (by decide) (by decide)
  have hclosing : Solid "```".toList := solid_line (by decide) (by decide)
  refine ⟨_, hopening.join h hclosing, ?_⟩
  simp [appendSample]

theorem spaced_samples {samples : List Text}
    (h : ∀ code ∈ samples, ¬ "\n\n\n".toList <:+: "\n".toList ++ code ++ "\n".toList) :
    Spaced (appendSamples [] samples) := by
  by_cases hne : samples = []
  · exact .inl (by rw [hne]; rfl)
  · rw [appendSamples_eq hne]
    have hheading : Block ("### Example".toList ++ "\n\n".toList) := block_line (by decide) (by decide)
    exact .inr (hheading.append_spaced (spaced_flatMap fun code hcode => .inr (block_sample (h code hcode))))

/-- A text that begins with a visible character and has no three newlines in a row is solid without the white space
at its end. -/
theorem solid_trimEnd {c : Char} {s : Text} (hc : Text.isWhiteSpace c = false) (h : ¬ "\n\n\n".toList <:+: c :: s) :
    Solid (Text.trimEnd (c :: s)) := by
  have hcons := Text.trimEnd_cons hc s
  refine solid_of_ends (hcons ▸ List.cons_ne_nil c _) (fun d hd => ?_) (fun _ => Text.getLast_trimEnd)
    (fun ht => h (ht.trans (Text.trimEnd_isPrefix _).isInfix))
  rw [hcons] at hd
  exact Option.some.inj hd ▸ hc

theorem spaced_returns {value? : Option ReturnDoc}
    (h : ∀ value, value? = some value → ∀ type ∈ value.types, '\n' ∉ type) : Spaced (appendReturns [] value?) := by
  cases value? with
  | none => exact .inl rfl
  | some value =>
    have htypes : '\n' ∉ List.intercalate [','] value.types :=
      newline_not_mem_intercalate (by decide) (h value rfl)
    have hfront : Solid ("**Returns** `".toList ++ List.intercalate [','] value.types ++ "`, ".toList) := by
      refine solid_line (by simp) ?_
      exact List.not_mem_append (List.not_mem_append (by decide) htypes) (by decide)
    have hline : ¬ "\n\n\n".toList <:+: "**Returns** `".toList ++ List.intercalate [','] value.types ++ "`, ".toList ++
        Html.toMarkdown value.description :=
      not_isInfix_append hfront.apart (Html.noBlankRun_toMarkdown _).not_isInfix (.inl hfront.last)
    exact .inr ⟨_, solid_trimEnd (by decide) hline, rfl⟩

/-- The section of an entry is a block. -/
theorem block_entry {name : Text} {e : Entry} (h : KeepsLines name e) : Block (appendEntry [] name e) := by
  rw [appendEntry_eq_parts]
  have hheading := block_heading h.name h.params
  exact ((((hheading.append_spaced (spaced_paragraph _)).append_spaced (spaced_fields (by decide) _ _)).append_spaced
    (spaced_fields (by decide) _ _)).append_spaced (spaced_samples h.samples)).append_spaced (spaced_returns h.types)

theorem spaced_sectionsText {es : List (Text × Entry)} (h : ∀ p ∈ es, KeepsLines p.1 p.2) : Spaced (sectionsText es) :=
  spaced_flatMap fun p hp => .inr (block_entry (h p hp))

/-- The sections of a group are spaced. -/
theorem spaced_sectionsOf {es : List Entry} (h : ∀ e ∈ es, ∀ name, e.displayName? = some name → KeepsLines name e)
    (policy : Policy) (visibility : Visibility) : Spaced (sectionsText (sectionsOf policy visibility es)) := by
  refine spaced_sectionsText fun q hq => ?_
  obtain ⟨e, he, hq⟩ := List.mem_filterMap.mp hq
  obtain ⟨name, hname, rfl⟩ := Option.map_eq_some_iff.mp hq
  exact h e (List.mem_filter.mp he).1 name hname

theorem block_divider : Block divider := by
  have hline : Block ("## Private members".toList ++ "\n\n".toList) := block_line (by decide) (by decide)
  exact hline

/-- A document that is no README is a block. -/
theorem block_plain {es : List Entry} {o : Options} {document : Text} (hplain : o.readme = false)
    (hes : ∀ e ∈ es, ∀ name, e.displayName? = some name → KeepsLines name e)
    (h : (render es o).result = .ok document) : Block document := by
  obtain ⟨-, hdoc⟩ := render_ok h
  have hheader : headerText o = [] := by rw [headerText, hplain]
  have hfooter : footerText o = [] := by rw [footerText, hplain]
  rw [hheader, hfooter, List.nil_append, List.append_nil] at hdoc
  rw [hdoc]
  exact ((spaced_sectionsOf hes _ _).append_block block_divider).append_spaced (spaced_sectionsOf hes _ _)

/-- **The parts of a section are set apart by one empty line each**, if what it shows as it was written keeps its lines,
and one stands at its end, whichever parts there are. The same is true of a document of such sections. -/
theorem render_plain_spacing :
    (∀ (document name : Text) (e : Entry), KeepsLines name e →
      ∃ part, appendEntry document name e = document ++ part ∧ "### ".toList <+: part ∧
        ¬ "\n\n\n".toList <:+: part ∧ ∃ s c, part = s ++ [c, '\n', '\n'] ∧ c ≠ '\n') ∧
      ∀ (es : List Entry) (o : Options) (document : Text), o.readme = false →
        (∀ e ∈ es, ∀ name, e.displayName? = some name → KeepsLines name e) → (render es o).result = .ok document →
        ¬ "\n\n\n".toList <:+: document ∧ ∃ s c, document = s ++ [c, '\n', '\n'] ∧ c ≠ '\n' := by
  refine ⟨fun document name e hlines => ?_, fun es o document hplain hes h => ?_⟩
  · have hblock := block_entry hlines
    have hheading := (List.prefix_append "### ".toList name).trans (heading_prefix_appendEntry name e)
    exact ⟨_, appendEntry_eq document name e, hheading, hblock.apart, hblock.ends⟩
  · have hblock := block_plain hplain hes h
    exact ⟨hblock.apart, hblock.ends⟩

/-- An entry whose description has empty lines, with a property that has line breaks in its name, a sample with an empty
line and a returned value that is not described. -/
theorem render_plain_spacing_empty_lines :
    let e : Entry := ⟨[.property ⟨"p\n\n\nq".toList, [], [], false, "<pre><code>\n\n\nc\n</code></pre>".toList⟩,
      .sample "f\n\ng".toList, .returns ⟨["T".toList], "<p> </p>".toList⟩],
      some ⟨"a\n \n\n\nb".toList, [], []⟩, some ⟨[], "f".toList⟩⟩
    KeepsLines "f".toList e ∧ (∃ part, appendEntry ['x'] "f".toList e = 'x' :: part ∧ "### ".toList <+: part ∧
        ¬ "\n\n\n".toList <:+: part ∧ ∃ s c, part = s ++ [c, '\n', '\n'] ∧ c ≠ '\n') ∧
      ∃ document, (render [e, ⟨[], none, none⟩] ⟨false, true, none, .publish⟩).result = .ok document ∧
        ¬ "\n\n\n".toList <:+: document ∧ ∃ s c, document = s ++ [c, '\n', '\n'] ∧ c ≠ '\n' := by
  intro e
  have hlines : KeepsLines "f".toList e :=
    ⟨by decide, by decide, fun value hvalue => Option.some.inj hvalue ▸ by decide, by decide⟩
  have hall : ∀ e' ∈ [e, ⟨[], none, none⟩], ∀ name, e'.displayName? = some name → KeepsLines name e' := by
    refine List.forall_mem_cons.mpr ⟨fun name hname => ?_, List.forall_mem_singleton.mpr nofun⟩
    obtain rfl : "f".toList = name := Option.some.inj hname
    exact hlines
  have hdocument := render_plain_spacing.2 [e, ⟨[], none, none⟩] ⟨false, true, none, .publish⟩ _ rfl hall rfl
  exact ⟨hlines, render_plain_spacing.1 ['x'] _ e hlines, _, rfl, hdocument⟩

/-! ## The frame of a README -/

/-- The strings of a package. -/
def packageTexts (p : Package) : List Text :=
  p.name :: p.description :: (p.repositoryUrl?.toList ++ (p.scripts.bind Scripts.test).toList)

theorem newline_not_mem_badge {front url : Text} {slug : Slug} (hslug : slug.StandsIn front url) (h : '\n' ∉ url) :
    '\n' ∉ badge slug := by
  rw [hslug.url_eq, List.mem_append, List.mem_append, List.mem_cons, List.mem_append] at h
  have howner : '\n' ∉ slug.owner := fun hn => h (.inr (.inl hn))
  have hname : '\n' ∉ slug.name := fun hn => h (.inr (.inr (.inr (.inl hn))))
  have hpath : '\n' ∉ slug.owner ++ ['/'] ++ slug.name :=
    List.not_mem_append (List.not_mem_append howner (by decide)) hname
  have himage : '\n' ∉ "[![build status](https://secure.travis-ci.org/".toList := by decide +kernel
  have hlink : '\n' ∉ ".png)](http://travis-ci.org/".toList := by decide +kernel
  exact List.not_mem_append (List.not_mem_append (List.not_mem_append (List.not_mem_append himage hpath) hlink) hpath)
    (by decide)

/-- A complete header is a block with the title and the badge, and the description with an empty line behind it. -/
theorem header_eq_block {p : Package} (hp : ∀ s ∈ packageTexts p, '\n' ∉ s) {withBadge : Bool}
    (h : (appendHeader [] p withBadge).error? = none) :
    ∃ top, Block top ∧ (appendHeader [] p withBadge).text = top ++ (p.description ++ "\n\n".toList) := by
  have hname : '\n' ∉ p.name := hp p.name List.mem_cons_self
  have htitle : Block (titleText p) := block_line (by simp) (by simp [hname])
  cases withBadge with
  | false => exact ⟨_, htitle, by rw [appendHeader_plain]; rfl⟩
  | true =>
    obtain hplain | ⟨url, front, slug, hurl, hslug⟩ := (appendHeader_complete_iff [] p true).mp h
    · exact absurd hplain nofun
    · have hurl' : '\n' ∉ url := hp url (by simp [packageTexts, hurl])
      have hbadge : Block (badge slug ++ "\n\n".toList) :=
        block_line (List.append_ne_nil_of_right_ne_nil _ (List.cons_ne_nil _ _)) (newline_not_mem_badge hslug hurl')
      refine ⟨_, htitle.append hbadge, ?_⟩
      rw [appendHeader_badge [] hurl (Slug.ofUrl_eq_some_iff.mpr ⟨front, hslug⟩)]
      rfl

theorem block_installation {p : Package} (hname : '\n' ∉ p.name) : Block (appendInstallation [] p) := by
  have hheading : Block ("## Installation".toList ++ "\n\n".toList) := block_line (by decide) (by decide)
  have hrequires : Block ("Requires [nodejs](http://nodejs.org/).".toList ++ "\n\n".toList) :=
    block_line (by decide) (by decide)
  have hcommand : Solid ("```sh".toList ++ "\n".toList ++ ("$ npm install ".toList ++ p.name) ++ "\n".toList ++
      "```".toList) := by
    have hopening : Solid "```sh".toList := solid_line (by decide) (by decide)
    have hclosing : Solid "```".toList := solid_line (by decide) (by decide)
    have hline : Solid ("$ npm install ".toList ++ p.name) := solid_line (by simp) (by simp [hname])
    exact (hopening.join (by decide) hline).join (by decide) hclosing
  have hblock := (hheading.append hrequires).append ⟨_, hcommand, rfl⟩
  have htitle : "## Installation\n\n".toList = "## Installation".toList ++ "\n\n".toList := rfl
  have hline : "Requires [nodejs](http://nodejs.org/).\n\n".toList =
      "Requires [nodejs](http://nodejs.org/).".toList ++ "\n\n".toList := rfl
  have hopening : "```sh\n$ npm install ".toList = "```sh".toList ++ "\n".toList ++ "$ npm install ".toList := rfl
  have hclosing : "\n```\n\n".toList = "\n".toList ++ "```".toList ++ "\n\n".toList := rfl
  rw [appendInstallation, htitle, hline, hopening, hclosing]
  simpa only [List.append_assoc, List.nil_append] using hblock

theorem block_testsSection : Block testsSection := by
  have hheading : Block ("## Tests".toList ++ "\n\n".toList) := block_line (by decide) (by decide)
  have hcommand : Block ("```sh\n$ npm test\n```".toList ++ "\n\n".toList) :=
    ⟨_, ⟨⟨_, _, rfl, by decide⟩, ⟨"```sh\n$ npm test\n``".toList, '`', rfl, by decide⟩, by decide⟩, rfl⟩
  exact hheading.append hcommand

theorem block_footer {p : Package} (hname : '\n' ∉ p.name) : Block (appendFooter [] p).text := by
  rw [appendFooter_eq_ite]
  by_cases h : p.hasTestScript = true
  · rw [if_pos h]
    exact (block_installation hname).append block_testsSection
  · rw [if_neg h]
    exact block_installation hname

/-- A README that is rendered has a complete header. -/
theorem header_complete {es : List Entry} {o : Options} {p : Package} {document : Text} (hreadme : o.readme = true)
    (hpackage : o.package = some p) (h : (render es o).result = .ok document) :
    (appendHeader [] p o.badge).error? = none := by
  have hcourse := course_render es o
  generalize render es o = outcome at h hcourse
  cases hcourse with
  | packageMissing => exact absurd h nofun
  | untagged => exact absurd h nofun
  | incomplete => exact absurd h nofun
  | plain hplain => exact absurd (hreadme.symm.trans hplain) nofun
  | framed _ hpackage' _ herror =>
    obtain rfl := Option.some.inj (hpackage.symm.trans hpackage')
    exact herror

/-- **The parts of a README are set apart by one empty line each**, if what it shows as it was written keeps its lines:
the document ends with exactly two newlines. It has no three newlines in a row unless the description of the package
is empty, for then an empty line stands in its place. -/
theorem render_readme_spacing {es : List Entry} {o : Options} {p : Package} {document : Text}
    (hreadme : o.readme = true) (hpackage : o.package = some p) (hp : ∀ s ∈ packageTexts p, '\n' ∉ s)
    (hes : ∀ e ∈ es, ∀ name, e.displayName? = some name → KeepsLines name e)
    (h : (render es o).result = .ok document) :
    (∃ s c, document = s ++ [c, '\n', '\n'] ∧ c ≠ '\n') ∧
      (¬ "\n\n\n".toList <:+: document ↔ p.description ≠ []) := by
  obtain ⟨-, hdoc⟩ := render_ok h
  have hfooter : Block (footerText o) := by
    rw [footerText, hreadme, hpackage]
    exact block_footer (hp p.name List.mem_cons_self)
  have hrest : Block (sectionsText (sectionsOf o.policy .published es) ++
      (divider ++ (sectionsText (sectionsOf o.policy .internal es) ++ footerText o))) :=
    (spaced_sectionsOf hes _ _).append_block (block_divider.append ((spaced_sectionsOf hes _ _).append_block hfooter))
  obtain ⟨top, htop, htext⟩ := header_eq_block hp (header_complete hreadme hpackage h)
  have hheader : headerText o = top ++ (p.description ++ "\n\n".toList) := by
    rw [headerText, hreadme, hpackage]
    exact htext
  rw [hheader, List.append_assoc, List.append_assoc, List.append_assoc] at hdoc
  generalize sectionsText (sectionsOf o.policy .published es) ++
    (divider ++ (sectionsText (sectionsOf o.policy .internal es) ++ footerText o)) = rest at hdoc hrest
  refine ⟨?_, ?_, ?_⟩
  · obtain ⟨s, c, rfl, hc⟩ := hrest.ends
    exact ⟨top ++ (p.description ++ "\n\n".toList) ++ s, c, by rw [hdoc, ← List.append_assoc], hc⟩
  · intro hapart hempty
    obtain ⟨s, -, rfl⟩ := htop
    refine hapart ⟨s, '\n' :: rest, ?_⟩
    rw [hdoc, hempty]
    simp
  · intro hne
    have hdescription : Block (p.description ++ "\n\n".toList) :=
      block_line hne (hp p.description (List.mem_cons_of_mem _ List.mem_cons_self))
    rw [hdoc]
    exact ((htop.append hdescription).append hrest).apart

/-- A README with a badge, an entry with parameters, a sample and a returned value, and a package with tests. -/
theorem render_readme_spacing_badge_and_tests :
    let e : Entry := ⟨[.param ⟨"x".toList, ["T".toList], [], false, "a\n\n\nb".toList⟩, .sample "f(x)\n\ny".toList,
      .returns ⟨["T".toList], "<p>c</p>".toList⟩], none, some ⟨[], "f".toList⟩⟩
    let p : Package := ⟨"p".toList, "d".toList, some (.shorthand "a/b.git".toList), some ⟨some "t".toList⟩⟩
    ∃ document, (render [e] ⟨true, true, some p, .publish⟩).result = .ok document ∧
      (∃ s c, document = s ++ [c, '\n', '\n'] ∧ c ≠ '\n') ∧ ¬ "\n\n\n".toList <:+: document := by
  intro e p
  have hlines : ∀ e' ∈ [e], ∀ name, e'.displayName? = some name → KeepsLines name e' := by
    intro e' he name hname
    obtain rfl := List.mem_singleton.mp he
    obtain rfl : "f".toList = name := Option.some.inj hname
    exact ⟨by decide, by decide, fun value hvalue => Option.some.inj hvalue ▸ by decide, by decide⟩
  obtain ⟨hends, hapart⟩ := render_readme_spacing (o := ⟨true, true, some p, .publish⟩) rfl rfl (by decide) hlines rfl
  exact ⟨_, rfl, hends, hapart.mpr (by decide)⟩

/-- A package without a description leaves three newlines in a row. -/
theorem render_readme_spacing_no_description :
    ∃ document, (render [] ⟨true, false, some ⟨"w".toList, [], none, none⟩, .reject⟩).result = .ok document ∧
      (∀ s ∈ packageTexts ⟨"w".toList, [], none, none⟩, '\n' ∉ s) ∧ "\n\n\n".toList <:+: document :=
  ⟨_, rfl, by decide, by decide +kernel⟩

end ApiReference.Document
