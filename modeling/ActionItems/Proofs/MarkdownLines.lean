import ActionItems.Report
import ActionItems.Proofs.PhysicalLines
import ActionItems.Proofs.TagWords

/-! # The lines of a Markdown report

A report is written line by line, and where no text of a finding holds a line feed its physical
lines are those lines (`physicalLines_markdown`). They are told apart by what they begin with: items
by an empty check box, headings by the name of a tag, the counts by their word (`opening`). So a
section lists the findings of its tag in their order (`opening_itemMark_section`), under a heading
that no other section has (`opening_headingMark_section`), and the sections together list every
finding once, since it has one tag (`tagged_perm`). -/

namespace ActionItems

open Text

/-- The texts of a finding that a report shows are on one line. -/
structure Finding.IsOneLine (f : Finding) : Prop where
  file : '\n' ∉ f.file
  text : '\n' ∉ f.text
  metadata : ∀ m ∈ f.metadata, ∀ e ∈ m.entries, '\n' ∉ e.1 ∧ '\n' ∉ e.2

namespace Text

/-- Lines that are each ended are found again, with an empty piece behind the last end. -/
theorem physicalLines_flatMap_feed {ls : List Text} (h : ∀ line ∈ ls, '\n' ∉ line) :
    physicalLines (ls.flatMap (· ++ ['\n'])) = ls ++ [[]] := by
  induction ls with
  | nil => rfl
  | cons line ls ih =>
    rw [List.flatMap_cons, List.append_assoc, List.singleton_append, physicalLines_append_feed,
      physicalLines_of_not_mem (h line (List.mem_cons_self ..)),
      ih fun l hl => h l (List.mem_cons_of_mem _ hl)]
    rfl

theorem feed_notMem_ofNat (n : Nat) : '\n' ∉ ofNat n := by
  intro h
  exact absurd (Nat.isDigit_of_mem_toDigits (by decide) (by decide) h) (by decide)

/-- The lines that begin with a mark. -/
def opening (mark : Text) (ls : List Text) : List Text := ls.filter mark.isPrefixOf

theorem opening_append (mark : Text) (ls ls' : List Text) :
    opening mark (ls ++ ls') = opening mark ls ++ opening mark ls' :=
  List.filter_append ..

theorem opening_eq_self {mark : Text} {ls : List Text} (h : ∀ line ∈ ls, mark <+: line) :
    opening mark ls = ls :=
  List.filter_eq_self.mpr fun line hline => List.isPrefixOf_iff_prefix.mpr (h line hline)

theorem opening_eq_nil {mark : Text} {ls : List Text} (h : ∀ line ∈ ls, ¬ mark <+: line) :
    opening mark ls = [] :=
  List.filter_eq_nil_iff.mpr fun line hline hmark =>
    h line hline (List.isPrefixOf_iff_prefix.mp hmark)

theorem opening_empty_line {mark : Text} (hmark : mark ≠ []) : opening mark [[]] = [] :=
  opening_eq_nil (List.forall_mem_singleton.mpr fun h => hmark (List.prefix_nil.mp h))

end Text

namespace Report

/-! ### Lines without line feeds -/

theorem feed_notMem_name (t : Tag) : '\n' ∉ t.name := by
  cases t <;> decide

theorem feed_notMem_metadataText {m : Metadata} (h : ∀ e ∈ m.entries, '\n' ∉ e.1 ∧ '\n' ∉ e.2) :
    '\n' ∉ metadataText m := by
  have hpairs : '\n' ∉ join ", ".toList (m.entries.map fun e => e.1 ++ ": ".toList ++ e.2) := by
    intro hfeed
    rcases mem_join hfeed with hsep | ⟨q, hq, hfeed⟩
    · exact absurd hsep (by decide)
    · obtain ⟨e, he, rfl⟩ := List.mem_map.mp hq
      simp [h e he] at hfeed
  simpa [metadataText] using hpairs

theorem feed_notMem_itemLine {f : Finding} (h : f.IsOneLine) : '\n' ∉ itemLine f := by
  have hlocation : '\n' ∉ f.location := by
    unfold Finding.location
    split
    · simp [h.file, feed_notMem_ofNat]
    · exact h.file
  have hmessage : '\n' ∉ messageText f.text := by
    unfold messageText
    split_ifs
    · simp
    · simp [h.text]
  have hmetadata : '\n' ∉ (f.metadata.map metadataText).getD [] := by
    cases hm : f.metadata with
    | none => simp
    | some m => exact feed_notMem_metadataText (h.metadata m hm)
  unfold itemLine
  simp [hlocation, hmessage, hmetadata]

theorem feed_notMem_heading (t : Tag) (n : Nat) : '\n' ∉ heading t n := by
  unfold heading
  simp [feed_notMem_name, feed_notMem_ofNat]

theorem feed_notMem_summaryLine (fs : List Finding) : '\n' ∉ summaryLine fs := by
  unfold summaryLine
  have hcounts : '\n' ∉ join ", ".toList
      (Tag.all.map fun t => t.name ++ ": ".toList ++ ofNat (tagged t fs).length) := by
    intro hfeed
    rcases mem_join hfeed with hsep | ⟨q, hq, hfeed⟩
    · exact absurd hsep (by decide)
    · obtain ⟨t, -, rfl⟩ := List.mem_map.mp hq
      simp [feed_notMem_name, feed_notMem_ofNat] at hfeed
  simpa [feed_notMem_ofNat] using hcounts

/-! ### Sections -/

theorem mem_tagged {t : Tag} {fs : List Finding} {f : Finding} :
    f ∈ tagged t fs ↔ f ∈ fs ∧ f.tag = t := by
  simp [tagged]

theorem tagged_cons (t : Tag) (f : Finding) (fs : List Finding) :
    tagged t (f :: fs) = if f.tag = t then f :: tagged t fs else tagged t fs := by
  simp [tagged, List.filter_cons]

/-- **Every finding has one tag**, so the findings by tag are the findings. -/
theorem tagged_perm (fs : List Finding) :
    (tagged .todo fs ++ tagged .fixme fs ++ tagged .hack fs).Perm fs := by
  induction fs with
  | nil => exact List.Perm.refl _
  | cons f fs ih =>
    cases htag : f.tag with
    | todo => simpa [tagged_cons, htag] using ih
    -- behind the findings of earlier tags, the finding is moved to the front
    | fixme =>
      simp only [tagged_cons, htag, reduceCtorEq, ↓reduceIte, List.append_assoc,
        List.cons_append] at ih ⊢
      exact List.perm_middle.trans (ih.cons f)
    | hack =>
      simp only [tagged_cons, htag, reduceCtorEq, ↓reduceIte] at ih ⊢
      exact List.perm_middle.trans (ih.cons f)

theorem sectionLines_of_nil {t : Tag} {fs : List Finding} (h : tagged t fs = []) :
    sectionLines t fs = [] := by
  rw [sectionLines, h]

theorem sectionLines_of_ne_nil {t : Tag} {fs : List Finding} (h : tagged t fs ≠ []) :
    sectionLines t fs = [] :: heading t (tagged t fs).length :: [] ::
      (tagged t fs).map itemLine := by
  obtain ⟨f, fs', hfs⟩ := List.exists_cons_of_ne_nil h
  rw [sectionLines, hfs]
  rfl

theorem feed_notMem_sectionLines {t : Tag} {fs : List Finding} (h : ∀ f ∈ fs, f.IsOneLine) :
    ∀ line ∈ sectionLines t fs, '\n' ∉ line := by
  by_cases hne : tagged t fs = []
  · simp [sectionLines_of_nil hne]
  · rw [sectionLines_of_ne_nil hne]
    intro line hline
    simp only [List.mem_cons, List.mem_map] at hline
    rcases hline with rfl | rfl | rfl | ⟨f, hf, rfl⟩
    · simp
    · exact feed_notMem_heading t _
    · simp
    · exact feed_notMem_itemLine (h f (mem_tagged.mp hf).1)

/-! ### What lines begin with -/

/-- The beginning of an item: an empty check box. -/
def itemMark : Text := "- [ ] \x60".toList

/-- The beginning of a tag's heading. -/
def headingMark (t : Tag) : Text := "## ".toList ++ t.name ++ " (".toList

theorem headingMark_ne_nil (t : Tag) : headingMark t ≠ [] := by
  cases t <;> decide

/-- The beginning of the line of the counts. -/
def totalMark : Text := "Total: ".toList

theorem itemMark_prefix_itemLine (f : Finding) : itemMark <+: itemLine f := by
  unfold itemLine
  simp only [List.append_assoc]
  exact List.prefix_append ..

theorem headingMark_prefix_heading (t : Tag) (n : Nat) : headingMark t <+: heading t n := by
  unfold heading
  rw [List.append_assoc]
  exact List.prefix_append ..

theorem totalMark_prefix_summaryLine (fs : List Finding) : totalMark <+: summaryLine fs := by
  unfold summaryLine
  simp only [List.append_assoc]
  exact List.prefix_append ..

/-- The names of tags differ in their first letter. -/
theorem eq_of_headingMark_prefix_heading {t t' : Tag} {n : Nat}
    (h : headingMark t <+: heading t' n) : t = t' := by
  have hname : t.name <+: t'.name ++ (" (".toList ++ (ofNat n ++ ")".toList)) := by
    unfold headingMark heading at h
    simp only [List.append_assoc, List.prefix_append_right_inj] at h
    exact (List.prefix_append ..).trans h
  have hne : ∀ g : Tag, g.name ≠ [] := fun g => by cases g <;> decide
  obtain ⟨r, hr⟩ := hname
  have hhead := congrArg List.head? hr
  rw [List.head?_append_of_ne_nil _ (hne t), List.head?_append_of_ne_nil _ (hne t')] at hhead
  exact Tag.eq_of_head_name hhead

theorem not_prefix_of_head? {mark line : Text} (hmark : mark ≠ [])
    (hhead : line.head? ≠ mark.head?) :
    ¬ mark <+: line := by
  rintro ⟨r, rfl⟩
  exact hhead (List.head?_append_of_ne_nil _ hmark)

theorem not_prefix_itemLine {mark : Text} (hmark : mark ≠ []) (hhead : mark.head? ≠ itemMark.head?)
    (f : Finding) :
    ¬ mark <+: itemLine f :=
  not_prefix_of_head? hmark fun h => hhead (h.symm.trans rfl)

theorem not_prefix_heading {mark : Text} (hmark : mark ≠ []) (hhead : mark.head? ≠ some '#')
    (t : Tag) (n : Nat) :
    ¬ mark <+: heading t n :=
  not_prefix_of_head? hmark fun h => hhead (h.symm.trans rfl)

theorem not_prefix_summaryLine {mark : Text} (hmark : mark ≠ [])
    (hhead : mark.head? ≠ totalMark.head?)
    (fs : List Finding) : ¬ mark <+: summaryLine fs :=
  not_prefix_of_head? hmark fun h => hhead (h.symm.trans rfl)

/-! ### Sections by what their lines begin with -/

/-- The heading of a tag, if it has findings. -/
def headingOf (t : Tag) (fs : List Finding) : List Text :=
  if tagged t fs = [] then [] else [heading t (tagged t fs).length]

theorem eq_of_mem_headingOf {t : Tag} {fs : List Finding} {line : Text}
    (h : line ∈ headingOf t fs) :
    line = heading t (tagged t fs).length := by
  unfold headingOf at h
  split_ifs at h
  · simp at h
  · exact List.mem_singleton.mp h

theorem opening_sectionLines {mark : Text} (hmark : mark ≠ []) (t : Tag) (fs : List Finding) :
    opening mark (sectionLines t fs) =
      opening mark (headingOf t fs) ++ opening mark ((tagged t fs).map itemLine) := by
  unfold headingOf
  split_ifs with hne
  · rw [sectionLines_of_nil hne, hne]
    rfl
  · have hparts : sectionLines t fs =
        [[]] ++ ([heading t (tagged t fs).length] ++ ([[]] ++ (tagged t fs).map itemLine)) :=
      sectionLines_of_ne_nil hne
    rw [hparts, opening_append, opening_append, opening_append, opening_empty_line hmark,
      List.nil_append, List.nil_append]

theorem opening_headingOf_eq_nil {mark : Text} (hmark : mark ≠ []) (hhead : mark.head? ≠ some '#')
    (t : Tag)
    (fs : List Finding) : opening mark (headingOf t fs) = [] := by
  refine opening_eq_nil fun line hline => ?_
  rw [eq_of_mem_headingOf hline]
  exact not_prefix_heading hmark hhead t _

theorem opening_itemMark_section (t : Tag) (fs : List Finding) :
    opening itemMark (sectionLines t fs) = (tagged t fs).map itemLine := by
  have hitems : opening itemMark ((tagged t fs).map itemLine) = (tagged t fs).map itemLine :=
    opening_eq_self (List.forall_mem_map.mpr fun f _ => itemMark_prefix_itemLine f)
  rw [opening_sectionLines (by decide), opening_headingOf_eq_nil (by decide) (by decide), hitems,
    List.nil_append]

theorem opening_headingMark_section (t t' : Tag) (fs : List Finding) :
    opening (headingMark t) (sectionLines t' fs) = if t = t' then headingOf t fs else [] := by
  have hmark := headingMark_ne_nil t
  have hhead : (headingMark t).head? ≠ itemMark.head? := by cases t <;> decide
  have hitems : opening (headingMark t) ((tagged t' fs).map itemLine) = [] :=
    opening_eq_nil (List.forall_mem_map.mpr fun f _ => not_prefix_itemLine hmark hhead f)
  rw [opening_sectionLines hmark, hitems, List.append_nil]
  split_ifs with htag
  · subst htag
    refine opening_eq_self fun line hline => ?_
    rw [eq_of_mem_headingOf hline]
    exact headingMark_prefix_heading t _
  · refine opening_eq_nil fun line hline hopens => htag ?_
    rw [eq_of_mem_headingOf hline] at hopens
    exact eq_of_headingMark_prefix_heading hopens

theorem opening_totalMark_section (t : Tag) (fs : List Finding) :
    opening totalMark (sectionLines t fs) = [] := by
  have hitems : opening totalMark ((tagged t fs).map itemLine) = [] :=
    opening_eq_nil (List.forall_mem_map.mpr fun f _ =>
      not_prefix_itemLine (by decide) (by decide) f)
  rw [opening_sectionLines (by decide), opening_headingOf_eq_nil (by decide) (by decide), hitems,
    List.nil_append]

/-! ### The whole report -/

/-- The lines in front of the sections. -/
def headLines (fs : List Finding) : List Text :=
  ["# TODO".toList] ++ [[]] ++
    [if fs = [] then "No TODO, FIXME or HACK comments found.".toList else summaryLine fs]

theorem markdownLines_eq (fs : List Finding) :
    markdownLines fs = headLines fs ++ Tag.all.flatMap fun t => sectionLines t fs := by
  cases fs with
  | nil => rfl
  | cons f fs => rfl

theorem physicalLines_markdown {fs : List Finding} (h : ∀ f ∈ fs, f.IsOneLine) :
    physicalLines (markdown fs) = headLines fs ++ (Tag.all.flatMap fun t => sectionLines t fs) ++
      [[]] := by
  rw [markdown, physicalLines_flatMap_feed, markdownLines_eq]
  intro line hline
  rw [markdownLines_eq, List.mem_append, List.mem_flatMap] at hline
  rcases hline with hline | ⟨t, -, hline⟩
  · unfold headLines at hline
    simp only [List.cons_append, List.nil_append, List.mem_cons, List.not_mem_nil,
      or_false] at hline
    rcases hline with rfl | rfl | rfl
    · decide
    · simp
    · split_ifs
      · decide
      · exact feed_notMem_summaryLine fs
  · exact feed_notMem_sectionLines h line hline

theorem opening_markdown {mark : Text} (hmark : mark ≠ []) {fs : List Finding}
    (h : ∀ f ∈ fs, f.IsOneLine) :
    opening mark (physicalLines (markdown fs)) = opening mark (headLines fs) ++
      (opening mark (sectionLines .todo fs) ++ opening mark (sectionLines .fixme fs) ++
        opening mark (sectionLines .hack fs)) := by
  have hsections : (Tag.all.flatMap fun t => sectionLines t fs) =
      sectionLines .todo fs ++ sectionLines .fixme fs ++ sectionLines .hack fs := by
    simp [Tag.all]
  rw [physicalLines_markdown h, hsections]
  simp only [opening_append, opening_empty_line hmark, List.append_nil]

/-- No line in front of the sections begins with the mark, unless it is the line of the counts. -/
theorem opening_headLines {mark : Text} (hmark : mark ≠ []) (htitle : ¬ mark <+: "# TODO".toList)
    (hnotice : ¬ mark <+: "No TODO, FIXME or HACK comments found.".toList) (fs : List Finding) :
    opening mark (headLines fs) = if fs = [] then [] else opening mark [summaryLine fs] := by
  have htitle : opening mark ["# TODO".toList] = [] :=
    opening_eq_nil (List.forall_mem_singleton.mpr htitle)
  have hnotice : opening mark ["No TODO, FIXME or HACK comments found.".toList] = [] :=
    opening_eq_nil (List.forall_mem_singleton.mpr hnotice)
  rw [headLines, opening_append, opening_append, htitle, opening_empty_line hmark, List.nil_append,
    List.nil_append]
  split_ifs
  · exact hnotice
  · rfl

theorem exists_empty_line (ts : List Tag) (fs : List Finding) :
    ∃ after, (ts.flatMap fun t => sectionLines t fs) ++ [[]] = [] :: after := by
  induction ts with
  | nil => exact ⟨[], rfl⟩
  | cons t ts ih =>
    by_cases hne : tagged t fs = []
    · simpa [sectionLines_of_nil hne] using ih
    · simp [sectionLines_of_ne_nil hne]

/-- The heading of a tag, an empty line and the items of the tag stand in the report together, and
an empty line is behind them. -/
theorem exists_section {t : Tag} {fs : List Finding} (h : ∀ f ∈ fs, f.IsOneLine)
    (hne : tagged t fs ≠ []) :
    ∃ before after, physicalLines (markdown fs) =
      before ++ heading t (tagged t fs).length :: [] :: (tagged t fs).map itemLine ++
        [] :: after := by
  obtain ⟨ts, ts', hall⟩ := List.append_of_mem (show t ∈ Tag.all by cases t <;> decide)
  -- behind the section is the next one or, if there is none, the empty piece at the end
  obtain ⟨after, hafter⟩ := exists_empty_line ts' fs
  refine ⟨headLines fs ++ (ts.flatMap fun t => sectionLines t fs) ++ [[]], after, ?_⟩
  rw [physicalLines_markdown h, hall, List.flatMap_append, List.flatMap_cons,
    sectionLines_of_ne_nil hne, ← hafter]
  simp only [List.append_assoc, List.cons_append, List.nil_append]

/-! ### What a report shows -/

/-- The line of the counts, from the counts. -/
def totalLine (total todo fixme hack : Nat) : Text :=
  "Total: ".toList ++ ofNat total ++ " (TODO: ".toList ++ ofNat todo ++ ", FIXME: ".toList ++
    ofNat fixme ++
    ", HACK: ".toList ++ ofNat hack ++ ")".toList

theorem summaryLine_eq (fs : List Finding) : summaryLine fs =
    totalLine fs.length (tagged .todo fs).length (tagged .fixme fs).length
      (tagged .hack fs).length := by
  unfold summaryLine totalLine
  simp [Tag.all, join, Tag.name]

/-- The lines `ls` show the findings `fs`: each has one item, the items stand by tag and in order
under the one heading of their tag, and the counts agree with them. -/
structure Shows (fs : List Finding) (ls : List Text) : Prop where
  items : opening itemMark ls =
    (tagged .todo fs ++ tagged .fixme fs ++ tagged .hack fs).map itemLine
  once : (opening itemMark ls).Perm (fs.map itemLine)
  absent : ∀ t, tagged t fs = [] → opening (headingMark t) ls = []
  headed : ∀ t, tagged t fs ≠ [] → opening (headingMark t) ls = [heading t (tagged t fs).length]
  placed : ∀ t, tagged t fs ≠ [] → ∃ before after,
    ls = before ++ heading t (tagged t fs).length :: [] :: (tagged t fs).map itemLine ++ [] :: after
  total : opening totalMark ls = if fs = [] then [] else
    [totalLine (opening itemMark ls).length (tagged .todo fs).length (tagged .fixme fs).length
      (tagged .hack fs).length]
  sum : (opening itemMark ls).length =
    (tagged .todo fs).length + (tagged .fixme fs).length + (tagged .hack fs).length

theorem items_markdown {fs : List Finding} (h : ∀ f ∈ fs, f.IsOneLine) :
    opening itemMark (physicalLines (markdown fs)) =
      (tagged .todo fs ++ tagged .fixme fs ++ tagged .hack fs).map itemLine := by
  have hsummary : opening itemMark [summaryLine fs] = [] :=
    opening_eq_nil (List.forall_mem_singleton.mpr
      (not_prefix_summaryLine (by decide) (by decide) fs))
  rw [opening_markdown (by decide) h, opening_headLines (by decide) (by decide) (by decide),
    hsummary, ite_self,
    List.nil_append]
  simp only [opening_itemMark_section, List.map_append]

theorem headings_markdown {fs : List Finding} (h : ∀ f ∈ fs, f.IsOneLine) (t : Tag) :
    opening (headingMark t) (physicalLines (markdown fs)) = headingOf t fs := by
  have hmark := headingMark_ne_nil t
  have hsummary : opening (headingMark t) [summaryLine fs] = [] :=
    opening_eq_nil (List.forall_mem_singleton.mpr
      (not_prefix_summaryLine hmark (by cases t <;> decide) fs))
  rw [opening_markdown hmark h,
    opening_headLines hmark (by cases t <;> decide) (by cases t <;> decide), hsummary,
    ite_self, List.nil_append]
  simp only [opening_headingMark_section]
  cases t <;> simp

theorem total_markdown {fs : List Finding} (h : ∀ f ∈ fs, f.IsOneLine) :
    opening totalMark (physicalLines (markdown fs)) = if fs = [] then [] else [summaryLine fs] := by
  have hsummary : opening totalMark [summaryLine fs] = [summaryLine fs] :=
    opening_eq_self (List.forall_mem_singleton.mpr (totalMark_prefix_summaryLine fs))
  rw [opening_markdown (by decide) h, opening_headLines (by decide) (by decide) (by decide),
    hsummary]
  simp only [opening_totalMark_section, List.append_nil]

/-- **A report shows every finding once.** Where the texts of the findings are on one line each, the
items of the report are those of the findings, the tags one after another and the findings of a tag
in their order. A tag with findings has one heading, with their number, and its items are all that
stands between an empty line behind the heading and the next empty line; a tag without findings has
no heading. The total is the number of items and the sum of the counts. -/
theorem markdown_shows_findings {fs : List Finding} (h : ∀ f ∈ fs, f.IsOneLine) :
    Shows fs (physicalLines (render .markdown fs)) := by
  have hitems := items_markdown h
  have hlength : (opening itemMark (physicalLines (markdown fs))).length = fs.length := by
    rw [hitems, List.length_map]
    exact (tagged_perm fs).length_eq
  refine
    { items := hitems
      once := ?_
      absent := fun t ht => ?_
      headed := fun t ht => ?_
      placed := fun t ht => exists_section h ht
      total := ?_
      sum := ?_ }
  · exact hitems ▸ (tagged_perm fs).map itemLine
  · exact (headings_markdown h t).trans (if_pos ht)
  · exact (headings_markdown h t).trans (if_neg ht)
  · rw [render, hlength, ← summaryLine_eq]
    exact total_markdown h
  · rw [render, hitems, List.length_map, List.length_append, List.length_append]

/-- Two findings of one tag around one of another, with metadata and without. -/
def mixed : List Finding :=
  [⟨.hack, "b".toList, some 2, "y".toList, "HACK y".toList, none⟩,
    ⟨.todo, "b".toList, some 3, [], "TODO".toList, some ⟨[("k".toList, "v".toList)], by simp⟩⟩,
    ⟨.hack, "c".toList, none, "- [ ] \x60".toList, "HACK - [ ] \x60".toList, none⟩]

theorem markdown_shows_findings_mixed :
    (∀ f ∈ mixed, f.IsOneLine) ∧ Shows mixed (physicalLines (render .markdown mixed)) ∧
      opening (headingMark .fixme) (physicalLines (render .markdown mixed)) = [] ∧
      opening (headingMark .hack) (physicalLines (render .markdown mixed)) =
        ["## HACK (2)".toList] := by
  have h : ∀ f ∈ mixed, f.IsOneLine := by
    intro f hf
    simp only [mixed, List.mem_cons, List.not_mem_nil, or_false] at hf
    rcases hf with rfl | rfl | rfl <;> exact ⟨by decide, by decide, by simp⟩
  have hshows := markdown_shows_findings h
  exact ⟨h, hshows, hshows.absent .fixme (by decide), (hshows.headed .hack (by decide)).trans rfl⟩

end Report

end ActionItems
