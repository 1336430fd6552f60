import Mathlib.Tactic.SplitIfs
import ActionItems.Program
import ActionItems.Proofs.FileTreeWrites
import ActionItems.Proofs.ScanOrder

/-!
# Dry runs

A dry run prints the report that the run without the flag writes to a file.

* an operation on the state of reading carries a flag (`Carries`) when it neither drops flags nor
  looks at one that it does not raise itself; all operations do, one after the other
  (`Carries.bind`), and so does the reading of words (`carries_readWords`). Hence a flag that is put
  behind words that are complete in themselves is read as one flag more (`parse_dryRun`);
* the scan does not look at the flag, and a report is delivered to the standard output or by one
  write (`deliver_cases`).
-/

namespace ActionItems

namespace CommandLine

theorem bind_eq_ok {α β : Type} {x : Except Stop α} {f : α → Except Stop β} {b : β} :
    (x >>= f) = .ok b ↔ ∃ a, x = .ok a ∧ f a = .ok b := by
  cases x with
  | error e => simp [bind, Except.bind]
  | ok a => simp [bind, Except.bind]

theorem map_eq_ok {α β : Type} {x : Except Stop α} {f : α → β} {b : β} :
    x.map f = .ok b ↔ ∃ a, x = .ok a ∧ f a = b := by
  cases x with
  | error e => simp [Except.map]
  | ok a => simp [Except.map]

/-- The word that asks for a dry run. -/
def dryRunWord : Text := "--dry-run".toList

/-- The word after which no word names an option. -/
def endWord : Text := ['-', '-']

namespace State

variable {f : Flag} {s s' r : State}

/-! ### One flag more -/

/-- The second state is the first with one flag more. -/
structure Adds (f : Flag) (s s' : State) : Prop where
  same : s' = { s with flags := s'.flags }
  flags : ∀ g, g ∈ s'.flags ↔ g = f ∨ g ∈ s.flags

/-- An operation that keeps flags, and makes no difference for one flag more that it does not raise
itself. -/
structure Carries (f : Flag) (op : State → Except Stop State) : Prop where
  keeps : ∀ {s r : State}, op s = .ok r → s.flags ⊆ r.flags
  adds : ∀ {s s' r : State}, Adds f s s' → op s = .ok r → f ∉ r.flags →
    ∃ r', op s' = .ok r' ∧ Adds f r r'

theorem Carries.bind {op₁ op₂ : State → Except Stop State} (h₁ : Carries f op₁)
    (h₂ : Carries f op₂) :
    Carries f fun s => op₁ s >>= op₂ where
  keeps h := by
    obtain ⟨m, hm, hr⟩ := bind_eq_ok.mp h
    exact List.Subset.trans (h₁.keeps hm) (h₂.keeps hr)
  adds hadds h hf := by
    obtain ⟨m, hm, hr⟩ := bind_eq_ok.mp h
    obtain ⟨m', hm', hadds'⟩ := h₁.adds hadds hm fun hmem => hf (h₂.keeps hr hmem)
    obtain ⟨r', hr', hadds''⟩ := h₂.adds hadds' hr hf
    exact ⟨r', bind_eq_ok.mpr ⟨m', hm', hr'⟩, hadds''⟩

theorem carries_error (f : Flag) (e : Stop) : Carries f fun _ => .error e where
  keeps h := by cases h
  adds _ h := by cases h

/-- An operation that changes no flags, whatever they are. -/
theorem carries_of_eq {op : State → Except Stop State}
    (h : ∀ s fs, op { s with flags := fs } = (op s).map fun r => { r with flags := fs })
    (hflags : ∀ {s r}, op s = .ok r → r.flags = s.flags) : Carries f op where
  keeps hr := by rw [hflags hr]; exact List.Subset.refl _
  adds {s s' r} hadds hr _ := by
    refine ⟨{ r with flags := s'.flags }, ?_, rfl, ?_⟩
    · rw [hadds.same, h s s'.flags, hr]
      rfl
    · rw [hflags hr]
      exact hadds.flags

/-- A parameter leaves the flags and the parameter that waits for its value alone. -/
theorem assign_keeps {p : Parameter} {v : Text} (h : s.assign p v = .ok r) :
    r.flags = s.flags ∧ r.pending = s.pending := by
  cases p <;> simp only [assign, map_eq_ok, Except.ok.injEq] at h
  case extensions => exact h ▸ ⟨rfl, rfl⟩
  case ignore => exact h ▸ ⟨rfl, rfl⟩
  all_goals
    obtain ⟨a, -, rfl⟩ := h
    exact ⟨rfl, rfl⟩

theorem assign_flags (s : State) (fs : List Flag) (p : Parameter) (v : Text) :
    { s with flags := fs }.assign p v = (s.assign p v).map fun r => { r with flags := fs } := by
  cases p with
  | extensions => rfl
  | ignore => rfl
  | root => cases hv : once .root s.root (.ok v) <;> simp [assign, hv, Except.map]
  | out => cases hv : once .out s.out (.ok v) <;> simp [assign, hv, Except.map]
  | format => cases hv : once .format s.format (formatOf v) <;> simp [assign, hv, Except.map]
  | concurrency =>
    cases hv : once .concurrency s.concurrency (countOf v) <;> simp [assign, hv, Except.map]

theorem carries_assign (f : Flag) (p : Parameter) (v : Text) : Carries f fun s => s.assign p v :=
  carries_of_eq (fun s fs => assign_flags s fs p v) fun h => (assign_keeps h).1

/-! ### Settling -/

theorem settle_of_pending (h : s.pending = none) : s.settle = .ok s := by
  unfold settle
  rw [h]

theorem pending_settle (h : s.settle = .ok r) : r.pending = none := by
  unfold settle at h
  split at h
  · next hnone =>
    cases h
    exact hnone
  · cases h
  · exact (assign_keeps h).2

theorem flags_settle (h : s.settle = .ok r) : r.flags = s.flags := by
  unfold settle at h
  split at h
  · cases h
    rfl
  · cases h
  · exact (assign_keeps (s := { s with pending := none }) h).1

theorem settle_flags (s : State) (fs : List Flag) :
    { s with flags := fs }.settle = s.settle.map fun r => { r with flags := fs } := by
  unfold settle
  cases hp : s.pending with
  | none => simp [Except.map, hp]
  | some x =>
    obtain ⟨p, v⟩ := x
    cases v with
    | none => simp [Except.map]
    | some v => exact assign_flags { s with pending := none } fs p v

theorem carries_settle (f : Flag) : Carries f settle := carries_of_eq settle_flags flags_settle

/-! ### Words -/

theorem carries_raise (f g : Flag) : Carries f fun s => s.raise g := by
  unfold raise
  refine (carries_settle f).bind ⟨?_, ?_⟩
  · intro s r h
    split at h
    · cases h
    · cases h
    · split_ifs at h
      cases h
      exact List.subset_cons_self ..
  · intro s s' r hadds h hf
    split at h
    · cases h
    · cases h
    · split_ifs at h with hg
      cases h
      have hgf : g ≠ f := by
        rintro rfl
        exact hf List.mem_cons_self
      have hg' : g ∉ s'.flags := by
        rw [hadds.flags]
        exact fun hor => hor.elim hgf hg
      refine ⟨{ s' with flags := g :: s'.flags }, by simp only [if_neg hg'], ?_, ?_⟩
      · rw [hadds.same]
      · intro k
        simp only [List.mem_cons, hadds.flags]
        exact or_left_comm

theorem carries_give (f : Flag) (p : Parameter) (v : Text) : Carries f fun s => s.give p v :=
  (carries_settle f).bind (carries_assign f p v)

theorem carries_await (f : Flag) (p : Parameter) : Carries f fun s => s.await p := by
  unfold await
  refine (carries_settle f).bind (carries_of_eq (fun s fs => rfl) ?_)
  intro s r h
  cases h
  rfl

theorem carries_readLetters (f : Flag) (letters : Text) :
    Carries f fun s => s.readLetters letters := by
  induction letters with
  | nil => exact carries_of_eq (fun s fs => rfl) fun h => by cases h; rfl
  | cons c rest ih =>
    unfold readLetters
    cases Name.ofLetter? c with
    | none => exact carries_error f _
    | some name =>
      cases name with
      | flag g => exact (carries_raise f g).bind ih
      | parameter p =>
        dsimp only
        split
        · exact carries_await f p
        · exact carries_give f p _
        · exact carries_give f p _

theorem carries_readLong (f : Flag) (name : Text) (value : Option Text) :
    Carries f fun s => s.readLong name value := by
  unfold readLong
  split
  · exact carries_error f _
  · exact carries_raise f _
  · exact carries_error f _
  · exact carries_await f _
  · exact carries_give f _ _

theorem carries_readValue (f : Flag) (word : Text) : Carries f fun s => s.readValue word := by
  refine carries_of_eq (fun s fs => ?_) fun {s r} h => ?_
  · unfold readValue
    split
    · next h => simp only at h; rw [h]; rfl
    · rfl
  · unfold readValue at h
    split at h
    · cases h
      rfl
    · cases h

theorem carries_readWord (f : Flag) (word : Text) : Carries f fun s => s.readWord word := by
  unfold readWord
  split
  · split
    · exact carries_readLong f _ _
    · exact carries_readLong f _ _
  · exact carries_readLetters f _
  · exact carries_readValue f _

theorem carries_readWords (f : Flag) (words : List Text) :
    Carries f fun s => s.readWords words := by
  induction words with
  | nil => exact carries_settle f
  | cons word rest ih =>
    unfold readWords
    split
    · split
      · exact carries_settle f
      · exact carries_error f _
    · exact (carries_readWord f word).bind ih

/-! ### Words that are complete -/

theorem raise_of_settle (h : s.settle = .ok r) (g : Flag) : s.raise g = r.raise g := by
  unfold raise
  rw [h, settle_of_pending (pending_settle h)]

theorem give_of_settle (h : s.settle = .ok r) (p : Parameter) (v : Text) :
    s.give p v = r.give p v := by
  unfold give
  rw [h, settle_of_pending (pending_settle h)]

theorem await_of_settle (h : s.settle = .ok r) (p : Parameter) : s.await p = r.await p := by
  unfold await
  rw [h, settle_of_pending (pending_settle h)]

theorem readLetters_of_settle (h : s.settle = .ok r) (c : Char) (rest : Text) :
    s.readLetters (c :: rest) = r.readLetters (c :: rest) := by
  unfold readLetters
  cases Name.ofLetter? c with
  | none => rfl
  | some name =>
    cases name with
    | flag g => simp only [raise_of_settle h]
    | parameter p => simp only [await_of_settle h, give_of_settle h]

theorem readLong_of_settle (h : s.settle = .ok r) (name : Text) (value : Option Text) :
    s.readLong name value = r.readLong name value := by
  unfold readLong
  simp only [raise_of_settle h, await_of_settle h, give_of_settle h]

theorem readValue_of_settle (h : s.settle = .ok r) (word : Text) :
    s.readValue word = r.readValue word := by
  have hnone := pending_settle h
  unfold readValue
  rw [hnone]
  split
  · next p hp => simp [settle, hp] at h
  · rfl

theorem readWord_of_settle (h : s.settle = .ok r) (word : Text) :
    s.readWord word = r.readWord word := by
  unfold readWord
  split
  · simp only [readLong_of_settle h]
  · exact readLetters_of_settle h _ _
  · exact readValue_of_settle h _

/-- It makes no difference whether a parameter is settled now or at the next word. -/
theorem readWords_of_settle (h : s.settle = .ok r) (words : List Text) :
    s.readWords words = r.readWords words := by
  cases words with
  | nil =>
    simp only [readWords]
    rw [h, settle_of_pending (pending_settle h)]
  | cons word rest =>
    simp only [readWords, readWord_of_settle h, h, settle_of_pending (pending_settle h)]

theorem readWords_cons {word : Text} (h : word ≠ endWord) (s : State) (rest : List Text) :
    s.readWords (word :: rest) = s.readWord word >>= fun m => m.readWords rest := by
  rw [readWords.eq_def]
  exact if_neg h

theorem pending_readWords {words : List Text} (h : s.readWords words = .ok r) :
    r.pending = none := by
  induction words generalizing s with
  | nil => exact pending_settle h
  | cons word rest ih =>
    by_cases hword : word = endWord
    · rw [readWords.eq_def, hword] at h
      simp only [endWord, if_true] at h
      split at h
      · exact pending_settle h
      · cases h
    · rw [readWords_cons hword] at h
      obtain ⟨m, -, hr⟩ := bind_eq_ok.mp h
      exact ih hr

/-- Words behind words that are complete. -/
theorem readWords_append {front : List Text} (hfront : endWord ∉ front)
    (h : s.readWords front = .ok r)
    (back : List Text) : s.readWords (front ++ back) = r.readWords back := by
  induction front generalizing s with
  | nil => exact readWords_of_settle h back
  | cons word front ih =>
    have hword : word ≠ endWord := fun he => hfront (he ▸ List.mem_cons_self)
    rw [readWords_cons hword] at h
    obtain ⟨m, hm, hr⟩ := bind_eq_ok.mp h
    rw [List.cons_append, readWords_cons hword, hm]
    exact ih (fun hmem => hfront (List.mem_cons_of_mem _ hmem)) hr

theorem readWord_dryRunWord (s : State) : s.readWord dryRunWord = s.raise .dryRun := rfl

theorem readWords_dryRun {front back : List Text} {mid : State} (hfront : endWord ∉ front)
    (hmid : s.readWords front = .ok mid) (h : s.readWords (front ++ back) = .ok r)
    (hdry : .dryRun ∉ r.flags) :
    ∃ r', s.readWords (front ++ dryRunWord :: back) = .ok r' ∧ Adds .dryRun r r' := by
  rw [readWords_append hfront hmid] at h ⊢
  have hnot : .dryRun ∉ mid.flags :=
    fun hmem => hdry ((carries_readWords .dryRun back).keeps h hmem)
  have hraise : mid.raise .dryRun = .ok { mid with flags := .dryRun :: mid.flags } := by
    rw [raise, settle_of_pending (pending_readWords hmid)]
    exact if_neg hnot
  have hadds : Adds .dryRun mid { mid with flags := .dryRun :: mid.flags } :=
    ⟨rfl, fun g => List.mem_cons⟩
  have hword : dryRunWord ≠ endWord := by decide
  obtain ⟨r', hr', hadds'⟩ := (carries_readWords .dryRun back).adds hadds h hdry
  refine ⟨r', ?_, hadds'⟩
  rw [readWords_cons hword, readWord_dryRunWord, hraise]
  exact hr'

end State

end CommandLine

namespace Arguments

open CommandLine CommandLine.State

theorem ofState_adds {env : Option Text} {s s' : State} (h : Adds .dryRun s s') :
    ofState env s' = { ofState env s with dryRun := true } := by
  rw [h.same]
  simp [ofState, h.flags]

theorem exists_of_parse {env : Option Text} {words : List Text} {a : Arguments}
    (h : parse env words = .ok a) :
    ∃ s : State, ({} : State).readWords words = .ok s ∧ ofState env s = a := map_eq_ok.mp h

/-- A dry run is asked for by one word more, behind words that are complete in themselves. -/
theorem parse_dryRun {env : Option Text} {front back : List Text} {a b : Arguments}
    (hfront : endWord ∉ front)
    (hcomplete : parse env front = .ok b) (h : parse env (front ++ back) = .ok a)
    (hdry : a.dryRun = false) :
    parse env (front ++ dryRunWord :: back) = .ok { a with dryRun := true } := by
  obtain ⟨mid, hmid, -⟩ := exists_of_parse hcomplete
  obtain ⟨s, hs, rfl⟩ := exists_of_parse h
  have hnot : .dryRun ∉ s.flags := by simpa [ofState] using hdry
  obtain ⟨s', hs', hadds⟩ := readWords_dryRun hfront hmid hs hnot
  rw [parse, hs', ← ofState_adds hadds]
  rfl

end Arguments

namespace Program

variable {t : FileTree} {env : Option Text} {words : List Text} {a : Arguments}

/-! ### Delivery -/

theorem run_of_parse (t : FileTree) (h : Arguments.parse env words = .ok a) :
    run t env words = execute t a := by
  rw [run, h]

theorem deliver_of_locate {l : Location} (hout : a.writesStandardOutput = false)
    (hlocate : t.locate .creation (Utf8.encode a.out) = .ok l) (hend : t.IsEnd l) (report : Text) :
    deliver t a report = ⟨0, [], [], t.put l (.file (Utf8.encode report))⟩ := by
  unfold deliver
  rw [hout, FileTree.write_of_locate hlocate hend]
  rfl

/-- A report is printed, or one file is written, or nothing is done. -/
theorem deliver_cases (t : FileTree) (a : Arguments) (report : Text) :
    (a.writesStandardOutput = true ∧ deliver t a report = printed t report) ∨
    (a.writesStandardOutput = false ∧ ∃ l, t.locate .creation (Utf8.encode a.out) = .ok l ∧
      t.IsEnd l ∧
      deliver t a report = ⟨0, [], [], t.put l (.file (Utf8.encode report))⟩) ∨
    (a.writesStandardOutput = false ∧ ∃ errors, deliver t a report = failed t 1 errors) := by
  cases hout : a.writesStandardOutput with
  | true => exact Or.inl ⟨rfl, by rw [deliver, if_pos hout]⟩
  | false =>
    cases hwrite : t.write (Utf8.encode a.out) (Utf8.encode report) with
    | error e => exact Or.inr (Or.inr ⟨rfl, [e.message], by rw [deliver, hout, hwrite]; rfl⟩)
    | ok t' =>
      obtain ⟨l, hlocate, hend, -⟩ := FileTree.exists_of_write hwrite
      exact Or.inr (Or.inl ⟨rfl, l, hlocate, hend, deliver_of_locate hout hlocate hend report⟩)

theorem execute_cases (t : FileTree) (a : Arguments) :
    (∃ errors, execute t a = failed t 1 errors) ∨
    ∃ report, (∀ b : Arguments, b.settings = a.settings → b.format = a.format →
      execute t b = deliver t b report) := by
  unfold execute
  cases hscan : scan t a.settings with
  | error f => exact Or.inl ⟨_, rfl⟩
  | ok o =>
    refine Or.inr ⟨Report.render a.format o.findings, fun b hsettings hformat => ?_⟩
    rw [hsettings, hscan, hformat]

theorem writesStandardOutput_iff :
    a.writesStandardOutput = true ↔ a.dryRun = true ∨ a.out = Arguments.standardOutput := by
  simp [Arguments.writesStandardOutput]

/-- **The frame of a run.** A run that fails, a dry run and a run with a dash for its file leave the
tree alone. A run that writes its report changes one file, the one that its command line names, and
writes what is printed, with the same success and from the same tree, if the command line asks for a
dry run as well. -/
theorem run_frame (t : FileTree) (h : Arguments.parse env words = .ok a) :
    (a.dryRun = true ∨ a.out = Arguments.standardOutput → (run t env words).tree = t) ∧
    ((run t env words).exit ≠ 0 → (run t env words).tree = t) ∧
    (a.dryRun = false → a.out ≠ Arguments.standardOutput → (run t env words).exit = 0 →
      ∃ l report, t.IsWritten (run t env words).tree (Utf8.encode a.out) (Utf8.encode report) l ∧
        ∀ front back b, words = front ++ back → CommandLine.endWord ∉ front →
          Arguments.parse env front = .ok b →
          run t env (front ++ CommandLine.dryRunWord :: back) = printed t report) := by
  rw [← writesStandardOutput_iff, run_of_parse t h]
  rcases execute_cases t a with ⟨errors, hfail⟩ | ⟨report, hreport⟩
  · rw [hfail]
    refine ⟨fun _ => rfl, fun _ => rfl, fun _ _ hexit => ?_⟩
    cases hexit
  · rw [hreport a rfl rfl]
    rcases deliver_cases t a report with ⟨hout, heq⟩ | ⟨hout, l, hlocate, hend, heq⟩
      | ⟨hout, errors, heq⟩
    · rw [heq]
      refine ⟨fun _ => rfl, fun _ => rfl, fun hdry hdash _ => ?_⟩
      exact absurd (writesStandardOutput_iff.mp hout) (by simp [hdry, hdash])
    · rw [heq]
      refine ⟨fun hstd => ?_, fun hexit => absurd rfl hexit, fun hdry _ _ => ?_⟩
      · rw [hstd] at hout
        cases hout
      · refine ⟨l, report, FileTree.isWritten_put hlocate hend _,
          fun front back b hwords hfront hcomplete => ?_⟩
        have hparse := Arguments.parse_dryRun hfront hcomplete (hwords ▸ h) hdry
        rw [run_of_parse t hparse, hreport { a with dryRun := true } rfl rfl]
        rfl
    · rw [heq]
      refine ⟨fun _ => rfl, fun _ => rfl, fun _ _ hexit => ?_⟩
      cases hexit

/-- The report goes to a link that leads to a file which is not there yet. -/
theorem run_frame_link :
    let t : FileTree := { entries :=
      [([Utf8.encode "a.sh".toList], .file (Utf8.encode "# TODO x".toList)),
        ([[0x4C]], .link [0x52])] }
    let words := ["-esh".toList, "-i=".toList, "-oL".toList]
    let r := run t none words
    r.exit = 0 ∧ ∃ l report, t.IsWritten r.tree [0x4C] (Utf8.encode report) l ∧
      run t none ["-esh".toList,
        "--dry-run".toList, "-i=".toList, "-oL".toList] = printed t report := by
  intro t words r
  let a : Arguments := ⟨['.'], ['L'], ["sh".toList], [[]], .markdown, none, false, false, false,
    false⟩
  let s : Scan := ⟨{ Settings.ofRoot ['.'] with extensions := ["sh".toList], ignore := [] },
    ⟨['.'], ["sh".toList], [], false, false⟩, Tally.zero⟩
  let o : Outcome := ⟨[⟨.todo, "a.sh".toList, some 1, "x".toList, "# TODO x".toList, none⟩],
    ⟨1, 1, 0, 1, 0, 1⟩, []⟩
  have hparse : Arguments.parse none words = .ok a := by decide +kernel
  have hfront : ∃ b, Arguments.parse none ["-esh".toList] = .ok b := ⟨_, rfl⟩
  have hprepare : Scan.prepare t a.settings = .ok s := rfl
  have hfiles : s.walk.files t = .ok ["./a.sh".toList] :=
    Walk.collect_eq_ok (by decide +kernel) (by decide +kernel) (by decide +kernel)
  have hrun : (s.run t).2 = .ok o :=
    Scan.run_eq_ok hfiles rfl (by decide +kernel) (by decide +kernel) (by decide +kernel)
      (by decide +kernel)
  have hlink : FileTree.Arrives t .creation 40 [] [[0x4C]] [[0x52]] :=
    .link ⟨rfl, rfl, by decide⟩ rfl (by decide) (.new ⟨rfl, rfl, by decide⟩ rfl rfl)
  have hlocate : t.locate .creation [0x4C] = .ok [[0x52]] :=
    FileTree.locate_eq_ok_iff.mpr ⟨⟨by decide, by decide, by decide⟩, hlink⟩
  have hscan : scan t a.settings = .ok o := by rw [scan, hprepare]; exact hrun
  have hexit : r.exit = 0 := by
    have hdeliver := deliver_of_locate (a := a) rfl hlocate (Or.inl rfl)
      (Report.render a.format o.findings)
    show (run t none words).exit = 0
    rw [run_of_parse t hparse, execute, hscan]
    exact congrArg ProgramResult.exit hdeliver
  obtain ⟨b, hb⟩ := hfront
  obtain ⟨l, report, hwritten, hdry⟩ := (run_frame t hparse).2.2 rfl (by decide) hexit
  exact ⟨hexit, l, report, hwritten, hdry ["-esh".toList] _ b rfl (by decide) hb⟩

end Program

end ActionItems
