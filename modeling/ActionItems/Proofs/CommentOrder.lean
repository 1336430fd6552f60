import ActionItems.Extraction
import ActionItems.Proofs.CommentLines

/-! # Comments in the order of the source

The comments of a tree follow one another in the source and do not overlap. `Laid lo sps hi` says
this of spans between two places. It holds of the comments between two tokens and of those inside of
a token, for every language (`Lexis.Ordered`), so it is kept by each token that a run reads
(`Run.Ordered`) and holds of the tree (`exists_laid_parse`).

Since the lines of a comment are counted from its first row and end with its last one, the lines of
the annotations of a source do not descend (`extract_lines`). -/

namespace ActionItems

open Text

/-! ### Spans in a row -/

/-- Spans in the order of a source that do not overlap, from `lo` on and up to `hi`. -/
inductive Span.Laid : Nat → List Span → Nat → Prop
  | nil {lo hi : Nat} (h : lo ≤ hi) : Laid lo [] hi
  | cons {lo hi : Nat} {sp : Span} {sps : List Span} (before : lo ≤ sp.start)
      (length : sp.start ≤ sp.stop) (rest : Laid sp.stop sps hi) : Laid lo (sp :: sps) hi

namespace Span.Laid

theorem weaken {lo lo' hi : Nat} {sps : List Span} (h : Laid lo sps hi) (hle : lo' ≤ lo) :
    Laid lo' sps hi := by
  cases h with
  | nil h => exact .nil (hle.trans h)
  | cons before length rest => exact .cons (hle.trans before) length rest

theorem append {lo mid hi : Nat} {xs ys : List Span} (hxs : Laid lo xs mid)
    (hys : Laid mid ys hi) : Laid lo (xs ++ ys) hi := by
  induction hxs with
  | nil h => exact hys.weaken h
  | cons before length _ ih => exact .cons before length (ih hys)

theorem mono {lo hi hi' : Nat} {sps : List Span} (h : Laid lo sps hi) (hle : hi ≤ hi') :
    Laid lo sps hi' := by
  simpa using h.append (.nil hle)

theorem shift {lo hi : Nat} {sps : List Span} (h : Laid lo sps hi) (n : Nat) :
    Laid (lo + n) (sps.map (Syntax.shiftSpan n)) (hi + n) := by
  induction h with
  | nil h => exact .nil (Nat.add_le_add_right h n)
  | cons before length _ ih =>
    exact .cons (Nat.add_le_add_right before n) (Nat.add_le_add_right length n) ih

theorem of_mem {lo hi : Nat} {sps : List Span} (h : Laid lo sps hi) :
    ∀ sp ∈ sps, lo ≤ sp.start ∧ sp.start ≤ sp.stop := by
  induction h with
  | nil _ => simp
  | cons before length _ ih =>
    intro sp hsp
    rcases List.mem_cons.mp hsp with rfl | hsp
    · exact ⟨before, length⟩
    · have := ih sp hsp
      omega

theorem pairwise {lo hi : Nat} {sps : List Span} (h : Laid lo sps hi) :
    sps.Pairwise fun x y => x.stop ≤ y.start := by
  induction h with
  | nil _ => exact .nil
  | cons _ _ rest ih => exact .cons (fun y hy => (rest.of_mem y hy).1) ih

end Span.Laid

namespace Syntax

open ActionItems.Span

/-- The comments between two tokens are in order. -/
def Skipped.Ordered (k : Skipped) : Prop := Laid 0 k.comments k.length

/-- The comments inside of a token are in order. -/
def Lexeme.Ordered (l : Lexeme) : Prop := Laid 0 l.comments l.length

/-- All comments that the tokens of a language give are in order. -/
structure Lexis.Ordered (lex : Lexis) : Prop where
  tokenless : ∀ {s cs}, lex.tokenless s = some cs → ∃ n, Laid 0 cs n
  skip : ∀ s, (lex.skip s).Ordered
  skipPage : ∀ s, (lex.skipPage s).Ordered
  token : ∀ {kind s l}, lex.token kind s = some l → l.Ordered

/-! ### Text between tokens -/

theorem laid_skipPieces (piece : Text → Option Piece) : ∀ (fuel offset : Nat) (s : Text),
    Laid offset (skipPieces piece fuel offset s).comments (skipPieces piece fuel offset s).length
  | 0, offset, s => .nil (Nat.le_refl offset)
  | fuel + 1, offset, s => by
    rw [skipPieces]
    split
    · next n isComment _ =>
      have hlater := laid_skipPieces piece fuel (offset + (n + 1)) (s.drop (n + 1))
      dsimp only
      split_ifs with hc
      · exact .cons (Nat.le_refl offset) (Nat.le_add_right ..) hlater
      · exact hlater.weaken (Nat.le_add_right ..)
    · exact .nil (Nat.le_refl offset)

theorem ordered_skipAll (piece : Text → Option Piece) (s : Text) : (skipAll piece s).Ordered :=
  laid_skipPieces piece _ 0 s

/-! ### Tokens of the languages -/

theorem ordered_of_comments_nil {l : Lexeme} (h : l.comments = []) : l.Ordered := by
  rw [Lexeme.Ordered, h]
  exact .nil (Nat.zero_le _)

namespace Ecmascript

theorem token_eq (kind : Text) :
    (∃ scan, token kind = plain scan) ∨ token kind = fun _ => none := by
  unfold token
  split
  case h_11 => exact Or.inr rfl
  all_goals exact Or.inl ⟨_, rfl⟩

theorem comments_of_token {kind s : Text} {l : Lexeme} (h : token kind s = some l) :
    l.comments = [] := by
  rcases token_eq kind with ⟨scan, hscan⟩ | hnone
  · rw [hscan] at h
    obtain ⟨n, -, rfl⟩ := Option.map_eq_some_iff.mp h
    rfl
  · rw [hnone] at h
    cases h

theorem ordered_lexis (holds : Text → Text → Bool) : (lexis holds).Ordered where
  tokenless {s cs} h := by
    simp only [lexis] at h
    split_ifs at h
    cases h
    exact ⟨_, ordered_skipAll pagePiece s⟩
  skip := ordered_skipAll piece
  skipPage := ordered_skipAll pagePiece
  token h := ordered_of_comments_nil (comments_of_token h)

end Ecmascript

namespace Php

/-- The comments on the way to a place are in order. -/
def Reached.Ordered (r : Reached) : Prop := Laid 0 r.comments r.offset

theorem Reached.Ordered.skip {r : Reached} (h : r.Ordered) (n : Nat) : (r.skip n).Ordered :=
  Laid.mono h (Nat.le_add_right ..)

theorem Reached.Ordered.pass {r : Reached} (h : r.Ordered) (n : Nat) : (r.pass n).Ordered := by
  have hspan : Laid r.offset [⟨r.offset, r.offset + n⟩] (r.offset + n) :=
    .cons (Nat.le_refl _) (Nat.le_add_right ..) (.nil (Nat.le_refl _))
  exact Laid.append h hspan

/-! The two scanners call each other, so their invariants go by one induction on the fuel. A place
is left only by `skip` and `pass`, which keep the order. -/

mutual

theorem ordered_quotedRest {quote : Char} : ∀ {fuel : Nat} {r r' : Reached}, r.Ordered →
    quotedRest quote fuel r = some r' → r'.Ordered
  | 0, _, _, _, h => by simp [quotedRest] at h
  | fuel + 1, r, r', hr, h => by
    rw [quotedRest] at h
    split at h
    · cases h
    · exact ordered_quotedRest (hr.skip 2) h
    · split at h
      · next hc => exact ordered_quotedRest (ordered_codeRest (hr.skip 2) hc) h
      · cases h
    · split at h
      · next hc => exact ordered_quotedRest (ordered_codeRest (hr.skip 2) hc) h
      · cases h
    · split_ifs at h
      · cases h
        exact hr.skip 1
      · exact ordered_quotedRest (hr.skip 1) h

theorem ordered_codeRest : ∀ {fuel depth : Nat} {r r' : Reached}, r.Ordered →
    codeRest fuel depth r = some r' → r'.Ordered
  | 0, _, _, _, _, h => by simp [codeRest] at h
  | fuel + 1, depth, r, r', hr, h => by
    rw [codeRest] at h
    split at h
    · cases h
    · exact ordered_codeRest (hr.skip 1) h
    · split_ifs at h
      · cases h
        exact hr.skip 1
      · exact ordered_codeRest (hr.skip 1) h
    · split at h
      · next hq => exact ordered_codeRest (ordered_quotedRest (hr.skip 1) hq) h
      · cases h
    · split at h
      · exact ordered_codeRest (hr.skip _) h
      · cases h
    · split at h
      · exact ordered_codeRest (hr.pass _) h
      · exact ordered_codeRest (hr.skip 1) h

end

theorem ordered_lineStartComment {r r' : Reached} (hr : r.Ordered)
    (h : lineStartComment r = some r') : r'.Ordered := by
  obtain ⟨n, -, rfl⟩ := Option.map_eq_some_iff.mp h
  exact (hr.skip _).pass n

theorem ordered_documentRest {label : Text} {plain : Bool} :
    ∀ {fuel : Nat} {fresh first : Bool} {r r' : Reached}, r.Ordered →
      documentRest label plain fuel fresh first r = some r' → r'.Ordered
  | 0, _, _, _, _, _, h => by simp [documentRest] at h
  | fuel + 1, fresh, first, r, r', hr, h => by
    unfold documentRest at h
    split at h
    · cases h
      exact hr.skip _
    split at h
    · next hc =>
      split_ifs at hc
      exact ordered_documentRest (ordered_lineStartComment hr hc) h
    split at h
    · exact ordered_documentRest (hr.skip _) h
    split at h
    · cases h
    · exact ordered_documentRest (hr.skip 2) h
    · split at h
      · next hc => exact ordered_documentRest (ordered_codeRest (hr.skip 2) hc) h
      · cases h
    · exact ordered_documentRest (hr.skip 1) h

theorem ordered_quotedToken {quote : Char} {s : Text} {l : Lexeme}
    (h : quotedToken quote s = some l) : l.Ordered := by
  unfold quotedToken at h
  split at h
  · cases h
  · split_ifs at h
    obtain ⟨r, hr, rfl⟩ := Option.map_eq_some_iff.mp h
    exact ordered_quotedRest (r := ⟨1, _, []⟩) (.nil (Nat.zero_le 1)) hr

theorem ordered_document {s : Text} {l : Lexeme} (h : document s = some l) : l.Ordered := by
  unfold document at h
  split at h
  · simp only [Option.bind_eq_bind, Option.bind_eq_some_iff, Option.map_eq_some_iff] at h
    obtain ⟨⟨label, plain, n⟩, -, m, -, r, hr, rfl⟩ := h
    exact ordered_documentRest (r := ⟨3 + n + m, _, []⟩) (.nil (Nat.zero_le _)) hr
  · cases h

theorem token_eq (kind : Text) :
    (∃ scan, token kind = plain scan) ∨ (∃ quote, token kind = quotedToken quote) ∨
      token kind = document ∨ token kind = fun _ => none := by
  unfold token
  split
  case h_6 => exact Or.inr (Or.inl ⟨_, rfl⟩)
  case h_7 => exact Or.inr (Or.inl ⟨_, rfl⟩)
  case h_8 => exact Or.inr (Or.inr (Or.inl rfl))
  case h_9 => exact Or.inr (Or.inr (Or.inr rfl))
  all_goals exact Or.inl ⟨_, rfl⟩

theorem ordered_token {kind s : Text} {l : Lexeme} (h : token kind s = some l) : l.Ordered := by
  rcases token_eq kind with ⟨scan, he⟩ | ⟨quote, he⟩ | he | he <;> rw [he] at h
  · obtain ⟨n, -, rfl⟩ := Option.map_eq_some_iff.mp h
    exact ordered_of_comments_nil rfl
  · exact ordered_quotedToken h
  · exact ordered_document h
  · cases h

theorem ordered_lexis : lexis.Ordered where
  tokenless {s cs} h := by
    simp only [lexis] at h
    split_ifs at h
    cases h
    exact ⟨0, .nil (Nat.le_refl 0)⟩
  skip := ordered_skipAll piece
  skipPage := ordered_skipAll piece
  token := ordered_token

end Php

/-! ### Runs -/

namespace Dialect

theorem matcher_of (g : Grammar) (lex : Lexis) (t : Nat) :
    (of g lex).matcher t = .sign [] ∨ ∃ x, (of g lex).matcher t = lex.matcher x := by
  unfold matcher
  rw [Array.getD_eq_getD_getElem?]
  cases h : (of g lex).matchers[t]? with
  | none => exact Or.inl rfl
  | some m =>
    have hm : ((Table.ofGrammar g).terminals.map lex.matcher)[t]? = some m := h
    rw [Array.getElem?_map, Option.map_eq_some_iff] at hm
    obtain ⟨x, -, rfl⟩ := hm
    exact Or.inr ⟨x, rfl⟩

theorem read_of_matcher {g : Grammar} {lex : Lexis} {t : Nat} {read : Text → Option Lexeme}
    (h : (of g lex).matcher t = .raw read ∨ (of g lex).matcher t = .token read) :
    ∃ kind, read = lex.token kind := by
  rcases matcher_of g lex t with hm | ⟨x, hm⟩ <;> rw [hm] at h
  · rcases h with h | h <;> cases h
  · cases x with
    | token kind =>
      simp only [Lexis.matcher] at h
      split_ifs at h
      all_goals rcases h with h | h <;> cases h
      all_goals exact ⟨kind, rfl⟩
    | _ => rcases h with h | h <;> cases h

section Ordered

variable {g : Grammar} {lex : Lexis} (hlex : lex.Ordered)
include hlex

theorem ordered_rawHit {rest : Text} {t : Nat} {h : Hit}
    (hit : (of g lex).rawHit rest t = some h) : h.lexeme.Ordered := by
  unfold rawHit at hit
  split at hit
  · next read hm =>
    obtain ⟨kind, rfl⟩ := read_of_matcher (Or.inl hm)
    obtain ⟨l, hl, rfl⟩ := Option.map_eq_some_iff.mp hit
    exact hlex.token hl
  · cases hit

theorem ordered_hit {tight : Bool} {word rest : Text} {t : Nat} {h : Hit}
    (hit : (of g lex).hit tight word rest t = some h) : h.lexeme.Ordered := by
  unfold Dialect.hit at hit
  split at hit
  case h_5 read hm =>
    obtain ⟨kind, rfl⟩ := read_of_matcher (Or.inr hm)
    obtain ⟨l, hl, rfl⟩ := Option.map_eq_some_iff.mp hit
    exact hlex.token hl
  case h_6 => cases hit
  case h_7 => cases hit
  all_goals
    split_ifs at hit
    cases hit
    exact ordered_of_comments_nil rfl

theorem ordered_skip (wanted : List Nat) (rest : Text) : ((of g lex).skip wanted rest).Ordered := by
  unfold Dialect.skip
  split_ifs
  · exact hlex.skip rest
  · exact hlex.skipPage rest

omit hlex in
theorem mem_of_mem_longest {hits : List Hit} {h : Hit} (hmem : h ∈ longest hits) : h ∈ hits := by
  unfold longest at hmem
  dsimp only at hmem
  split_ifs at hmem
  · exact List.mem_of_mem_filter (List.mem_of_mem_filter hmem)
  · exact List.mem_of_mem_filter hmem

omit hlex in
theorem exists_of_tokenOf {skipped : Skipped} {hits : List Hit} {t : Token}
    (h : tokenOf skipped hits = some t) :
    t.skipped = skipped ∧ ∃ x ∈ hits, t.lexeme = x.lexeme := by
  cases hits with
  | nil => cases h
  | cons x xs =>
    cases h
    exact ⟨rfl, x, List.mem_cons_self .., rfl⟩

theorem ordered_next {wanted : List Nat} {rest : Text} {t : Token}
    (h : (of g lex).next wanted rest = some t) : t.skipped.Ordered ∧ t.lexeme.Ordered := by
  unfold next at h
  split at h
  · next x xs hraw =>
    obtain ⟨hs, y, hy, hl⟩ := exists_of_tokenOf h
    rw [← hraw] at hy
    obtain ⟨n, -, hhit⟩ := List.mem_filterMap.mp (mem_of_mem_longest hy)
    rw [hs, hl]
    exact ⟨.nil (Nat.le_refl 0), ordered_rawHit hlex hhit⟩
  · obtain ⟨hs, y, hy, hl⟩ := exists_of_tokenOf h
    obtain ⟨n, -, hhit⟩ := List.mem_filterMap.mp (mem_of_mem_longest hy)
    rw [hs, hl]
    exact ⟨ordered_skip hlex wanted rest, ordered_hit hlex hhit⟩

end Ordered

end Dialect

namespace Run

/-- The comments that a run has passed are in order. -/
def Ordered (r : Run) : Prop := Laid 0 r.comments.reverse r.offset

theorem Ordered.push {D : Dialect} {r : Run} (hr : r.Ordered) {t : Dialect.Token}
    (hs : t.skipped.Ordered) (hl : t.lexeme.Ordered) : (r.push D t).Ordered := by
  have hskipped := hs.shift r.offset
  have hlexeme := hl.shift (r.offset + t.skipped.length)
  rw [Nat.zero_add, Nat.add_comm t.skipped.length] at hskipped
  rw [Nat.zero_add, Nat.add_comm t.lexeme.length] at hlexeme
  have hall := (Laid.append hr hskipped).append hlexeme
  simpa [Ordered, Run.push] using hall

variable {g : Grammar} {lex : Lexis} (hlex : lex.Ordered)
include hlex

theorem ordered_advance : ∀ (fuel : Nat) {r : Run}, r.Ordered →
    (r.advance (.of g lex) fuel).Ordered
  | 0, _, hr => hr
  | fuel + 1, r, hr => by
    rw [advance]
    split
    · next t ht =>
      obtain ⟨hs, hl⟩ := Dialect.ordered_next hlex ht
      exact ordered_advance fuel (hr.push hs hl)
    · exact hr

theorem exists_laid_allComments {r : Run} (hr : r.Ordered) :
    ∃ n, Laid 0 (r.allComments (.of g lex)) n := by
  have hskipped := (Dialect.ordered_skip (g := g) hlex r.wanted r.rest).shift r.offset
  rw [Nat.zero_add] at hskipped
  exact ⟨_, Laid.append hr hskipped⟩

omit hlex in
theorem ordered_start (D : Dialect) (source : Text) : (start D source).Ordered :=
  .nil (Nat.le_refl 0)

theorem ordered_run (source : Text) : ((Dialect.of g lex).run source).Ordered := by
  rw [Dialect.run]
  exact ordered_advance hlex _ (ordered_start _ source)

end Run

/-! ### Trees -/

theorem commentsOf_leaves (source : Text) (sps : List Span) :
    Tree.commentsOf (sps.map (leaf source .comment)) = sps := by
  induction sps with
  | nil => rfl
  | cons sp sps ih =>
    rw [List.map_cons, Tree.commentsOf, ih]
    rfl

theorem comments_fitting (source : Text) (sps : List Span) :
    (fitting source sps).comments = sps := by
  rw [fitting, root, Tree.comments]
  exact commentsOf_leaves source sps

theorem comments_broken (source : Text) (kind : RepairKind) (offset : Nat) :
    (broken source kind offset).comments = [] := by
  cases kind <;> rfl

/-- **Comments are in order** in every tree. -/
theorem exists_laid_parse {g : Grammar} {lex : Lexis} (hlex : lex.Ordered) (source : Text) :
    ∃ n, Laid 0 ((Dialect.of g lex).parse source).comments n := by
  unfold Dialect.parse
  split
  · next comments h =>
    rw [comments_fitting]
    exact hlex.tokenless h
  · dsimp only
    split_ifs
    · rw [comments_fitting]
      exact Run.exists_laid_allComments hlex (Run.ordered_run hlex source)
    · rw [comments_broken]
      exact ⟨0, .nil (Nat.le_refl 0)⟩

end Syntax

/-! ### Lines of annotations -/

namespace Comment

theorem exists_index {style : CommentStyle} {source : Text} {sp : Span} (hsp : sp.start ≤ sp.stop)
    {a : Annotation} (ha : a ∈ (ofSpan style source sp).annotations) :
    ∃ i, a.line = some (.ofIndex i) ∧ sp.row source ≤ i ∧ i ≤ (source.take sp.stop).count '\n' := by
  obtain ⟨i, line, hline, hann⟩ := exists_of_mem_annotations ha
  have hi := row_add_lt hsp (List.getElem?_eq_some_iff.mp hline).1
  rw [length_physicalLines] at hi
  refine ⟨sp.row source + i, ?_, by omega, by omega⟩
  rw [(annotationOf_eq_some hann).1, ofSpan, LineNumber.advance_ofIndex]

theorem annotations_lines (style : CommentStyle) (source : Text) (sp : Span) :
    (ofSpan style source sp).annotations.Pairwise fun a b =>
      ∃ l m, a.line = some l ∧ b.line = some m ∧ l ≤ m := by
  rw [annotations_eq]
  refine pairwise_filterMap_zipIdx fun x i y j a b hij hj ha hb => ?_
  refine ⟨_, _, (annotationOf_eq_some ha).1, (annotationOf_eq_some hb).1, ?_⟩
  simp only [ofSpan, LineNumber.advance_ofIndex]
  exact LineNumber.ofIndex_le (by omega)

end Comment

namespace Language

open Syntax

theorem exists_dialect (l : Language) : ∃ g lex, lex.Ordered ∧ l.dialect = .of g lex := by
  cases l
  · exact ⟨_, _, Ecmascript.ordered_lexis _, rfl⟩
  · exact ⟨_, _, Ecmascript.ordered_lexis _, rfl⟩
  · exact ⟨_, _, Ecmascript.ordered_lexis _, rfl⟩
  · exact ⟨_, _, Php.ordered_lexis, rfl⟩

theorem exists_laid_comments (l : Language) (source : Text) :
    ∃ n, Span.Laid 0 (l.parse source).comments n := by
  obtain ⟨g, lex, hlex, hl⟩ := exists_dialect l
  rw [Language.parse, hl]
  exact exists_laid_parse hlex source

/-- **Lines of a source do not descend** from one annotation to the next, also where they stop at
the greatest line number. -/
theorem extract_lines {l : Language} {source : Text} {as : List Annotation}
    (h : l.extract source = .ok as) :
    as.Pairwise fun a b => ∃ m n, a.line = some m ∧ b.line = some n ∧ m ≤ n := by
  obtain ⟨n, hlaid⟩ := exists_laid_comments l source
  unfold extract annotationsOf at h
  split_ifs at h
  cases h
  have hpair := hlaid.pairwise.imp_of_mem fun {x y} hx hy hxy =>
    And.intro (hlaid.of_mem x hx).2 (And.intro (hlaid.of_mem y hy).2 hxy)
  rw [List.pairwise_flatMap]
  refine ⟨fun sp _ => Comment.annotations_lines _ source sp, hpair.imp ?_⟩
  rintro x y ⟨hx, hy, hxy⟩ a ha b hb
  obtain ⟨i, hi, -, hlast⟩ := Comment.exists_index hx ha
  obtain ⟨j, hj, hfirst, -⟩ := Comment.exists_index hy hb
  have hcount : (source.take x.stop).count '\n' ≤ y.row source :=
    ((List.take_prefix_take_left hxy).sublist).count_le _
  exact ⟨_, _, hi, hj, LineNumber.ofIndex_le (by omega)⟩

end Language

end ActionItems
