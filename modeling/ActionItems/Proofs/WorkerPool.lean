import Mathlib.Algebra.BigOperators.Fin
import Mathlib.Algebra.Order.Group.Multiset
import Mathlib.Data.Multiset.MapFold
import ActionItems.Proofs.ScanAccounts

/-!
# Workers that share the inspection of files

Files are inspected by workers. Each has its own extractor; they share the files that nobody has
taken yet and the counters. A worker takes a file (`Turn.take`) and then goes on with it
(`Turn.go`): it reads the file, counts it as read, finds the annotations, counts the way they were
found and their number, each in a turn of its own, and hands in the summary. `Pool.turn` is one
turn, `Pool.play` is any list of turns, in which those of different workers are mixed in any way.

* one worker at one file: `Inspector.proceed`, and `Inspector.proceed_spec` for what a step counts
  and keeps;
* sums over the files that are not done: `Pool.total`, and how each turn changes it. With numbers
  the sum bounds the turns to come (`left_turn`), with events it is what is still to be counted
  (`Pool.owed`);
* the invariant: `Pool.IsSound`, kept by each turn (`IsSound.turn`) and so by all (`isSound_play`);
* every pool can be finished: `exists_finish`.

The counters can be added to in any order (`Tally.count_comm`), and what an extractor finds does not
depend on what it was asked for before (`Inspector.inspectContent_congr`).
-/

namespace ActionItems

theorem Tally.count_comm (s : Tally) (e f : Tally.Event) :
    (s.count e).count f = (s.count f).count e := by
  cases e with
  | findings m =>
    cases f with
    | findings n =>
      have hadd : s.findings + m + n = s.findings + n + m := by ac_rfl
      simp only [count, hadd]
    | _ => rfl
  | _ => cases f <;> rfl

instance : RightCommutative Tally.count := ⟨Tally.count_comm⟩

namespace Inspector

theorem readSource_congr {x e : Option Extractor} (h : x.isSome = e.isSome) (strategy : Strategy)
    (source : Text) :
    (readSource x strategy source).annotations = (readSource e strategy source).annotations ∧
      (readSource x strategy source).event = (readSource e strategy source).event ∧
      (readSource x strategy source).fault = (readSource e strategy source).fault ∧
      (readSource x strategy source).extractor.isSome = e.isSome := by
  unfold readSource
  cases strategy with
  | lineScan => exact ⟨rfl, rfl, rfl, h⟩
  | structural l =>
    match x, e, h with
    | none, none, _ => exact ⟨rfl, rfl, rfl, rfl⟩
    | some x, some e, _ =>
      simp only [Extractor.extract_eq]
      cases l.extract source <;> exact ⟨rfl, rfl, rfl, rfl⟩

variable (a : Inspector) (t : FileTree)

theorem inspectContent_congr {x e : Option Extractor} (h : x.isSome = e.isSome) (path : Path)
    (content : Except SystemError Bytes) :
    (a.inspectContent x path content).summary = (a.inspectContent e path content).summary ∧
      (a.inspectContent x path content).events = (a.inspectContent e path content).events ∧
      (a.inspectContent x path content).extractor.isSome = e.isSome := by
  cases content with
  | error err => exact ⟨rfl, rfl, h⟩
  | ok bytes =>
    obtain ⟨hannotations, hevent, hfault, hextractor⟩ :=
      readSource_congr h (Strategy.ofPath path) (Utf8.decodeLossy bytes)
    refine ⟨?_, ?_, hextractor⟩
    · simp only [inspectContent, summaryOf, hannotations, hfault]
    · simp only [inspectContent, hannotations, hevent]

theorem inspectAll_snd (e : Option Extractor) (tally : Tally) (paths : List Path) :
    (a.inspectAll t e tally paths).2 =
      tally.countAll (paths.flatMap fun p => (a.inspect t e p).events) := by
  suffices h : ∀ (x : Option Extractor) (s : Tally), x.isSome = e.isSome →
      (a.inspectAll t x s paths).2 =
        s.countAll (paths.flatMap fun p => (a.inspect t e p).events) from
    h e tally rfl
  induction paths with
  | nil => intro x s _; rfl
  | cons path rest ih =>
    intro x s hx
    obtain ⟨-, hevents, hextractor⟩ := a.inspectContent_congr hx path (t.read (Utf8.encode path))
    have hrest := ih _ (s.countAll (a.inspect t x path).events) hextractor
    have hpath : (a.inspect t x path).events = (a.inspect t e path).events := hevents
    simp only [inspectAll, List.flatMap_cons, Tally.countAll, List.foldl_append]
    rw [← hpath]
    exact hrest

/-- How far a worker has come with a file. -/
inductive Stage where
  | taken
  | opened (content : Bytes)
  /-- The file has been counted among those that were read. -/
  | counted (content : Bytes)
  /-- All is done but to count these events and to hand in the summary. -/
  | settling (summary : FileSummary) (events : List Tally.Event)

/-- What a worker does next with the file at a path: its extractor afterwards, the event that it
counts, if any, and the next stage. -/
def proceed (path : Path) (extractor : Option Extractor) :
    Stage → Option Extractor × Option Tally.Event × Stage
  | .taken =>
    match t.read (Utf8.encode path) with
    | .ok content => (extractor, none, .opened content)
    | .error e =>
      let r := a.inspectContent extractor path (.error e)
      (r.extractor, none, .settling r.summary r.events)
  | .opened content => (extractor, some .scanned, .counted content)
  | .counted content =>
    let r := a.inspectContent extractor path (.ok content)
    (r.extractor, none, .settling r.summary r.events.tail)
  -- nothing is left to count: `Pool.turn` hands the summary in instead
  | .settling s [] => (extractor, none, .settling s [])
  | .settling s (e :: es) => (extractor, some e, .settling s es)

namespace Stage

variable (path : Path) (e : Option Extractor)

def owed : Stage → List Tally.Event
  | .taken => (a.inspect t e path).events
  | .opened content => (a.inspectContent e path (.ok content)).events
  | .counted content => (a.inspectContent e path (.ok content)).events.tail
  | .settling _ es => es

def summary : Stage → FileSummary
  | .taken => (a.inspect t e path).summary
  | .opened content | .counted content => (a.inspectContent e path (.ok content)).summary
  | .settling s _ => s

/-- A bound on the number of turns that a worker still needs for a file. -/
def left : Stage → Nat
  | .taken => 6
  | .opened _ => 5
  | .counted _ => 4
  | .settling _ es => es.length + 1

end Stage

/-- **One step of a worker** keeps the summary to come, and counts what it no longer owes. -/
theorem proceed_spec (path : Path) {x e : Option Extractor} (hx : x.isSome = e.isSome)
    (stage : Stage) :
    (a.proceed t path x stage).1.isSome = e.isSome ∧
      stage.owed a t path e =
        (a.proceed t path x stage).2.1.toList ++ (a.proceed t path x stage).2.2.owed a t path e ∧
      (a.proceed t path x stage).2.2.summary a t path e = stage.summary a t path e := by
  cases stage with
  | taken =>
    simp only [proceed, Stage.owed, Stage.summary, inspect]
    cases t.read (Utf8.encode path) with
    | ok content => exact ⟨hx, rfl, rfl⟩
    | error err => exact ⟨hx, rfl, rfl⟩
  | opened content => exact ⟨hx, rfl, rfl⟩
  | counted content =>
    obtain ⟨hsummary, hevents, hextractor⟩ := a.inspectContent_congr hx path (.ok content)
    exact ⟨hextractor, congrArg List.tail hevents.symm, hsummary⟩
  | settling s es =>
    cases es <;> exact ⟨hx, rfl, rfl⟩

theorem left_proceed (path : Path) (x : Option Extractor) {stage : Stage}
    (h : ∀ s, stage ≠ .settling s []) :
    (a.proceed t path x stage).2.2.left < stage.left := by
  cases stage with
  | taken =>
    simp only [proceed]
    cases t.read (Utf8.encode path) with
    | ok content => exact (by decide : 5 < 6)
    | error err => simp [inspectContent, Stage.left]
  | opened content => simp [proceed, Stage.left]
  | counted content => simp [proceed, inspectContent, Stage.left]
  | settling s es =>
    cases es with
    | nil => exact absurd rfl (h s)
    | cons e es => simp [proceed, Stage.left]

end Inspector

structure Worker (files : Nat) where
  extractor : Option Extractor
  /-- The file that the worker has taken, by its index, and how far it has come with it. -/
  job : Option (Fin files × Inspector.Stage)

/-- Workers that inspect the files at the given paths, and what they share. -/
structure Pool (paths : List Path) (size : Nat) where
  /-- The files that nobody has taken yet. -/
  waiting : Finset (Fin paths.length)
  workers : Fin size → Worker paths.length
  /-- The summaries that have been handed in, each at the index of its file. -/
  summaries : Fin paths.length → Option FileSummary
  tally : Tally

inductive Turn (files size : Nat) where
  | take (w : Fin size) (i : Fin files)
  | go (w : Fin size)

namespace Pool

variable {paths : List Path} {size : Nat} (a : Inspector) (t : FileTree) (p : Pool paths size)

def start (paths : List Path) (size : Nat) (e : Option Extractor) (tally : Tally) :
    Pool paths size where
  waiting := Finset.univ
  workers _ := ⟨e, none⟩
  summaries _ := none
  tally := tally

def setWorker (w : Fin size) (s : Worker paths.length) : Pool paths size :=
  { p with workers := Function.update p.workers w s }

def takeFile (w : Fin size) (i : Fin paths.length) : Pool paths size :=
  { p.setWorker w ⟨(p.workers w).extractor, some (i, .taken)⟩ with waiting := p.waiting.erase i }

def handIn (w : Fin size) (i : Fin paths.length) (s : FileSummary) : Pool paths size :=
  { p.setWorker w ⟨(p.workers w).extractor, none⟩ with
    summaries := Function.update p.summaries i (some s) }

def goOn (w : Fin size) (i : Fin paths.length) (stage : Inspector.Stage) : Pool paths size :=
  let (x, event, stage) := a.proceed t (paths.get i) (p.workers w).extractor stage
  { p.setWorker w ⟨x, some (i, stage)⟩ with tally := p.tally.countAll event.toList }

/-- The pool after one turn, if the turn is possible. -/
def turn : Turn paths.length size → Option (Pool paths size)
  | .take w i => if i ∈ p.waiting ∧ (p.workers w).job.isNone then some (p.takeFile w i) else none
  | .go w =>
    match (p.workers w).job with
    | none => none
    | some (i, .settling s []) => some (p.handIn w i s)
    | some (i, stage) => some (p.goOn a t w i stage)

/-- The pool after turns, if each of them is possible. -/
def play (turns : List (Turn paths.length size)) : Option (Pool paths size) :=
  turns.foldlM (turn a t) p

def IsInWork (i : Fin paths.length) : Prop := ∃ w stage, (p.workers w).job = some (i, stage)

def IsFinished : Prop := p.waiting = ∅ ∧ ∀ w, (p.workers w).job.isNone

instance : Decidable p.IsFinished :=
  inferInstanceAs (Decidable (p.waiting = ∅ ∧ ∀ w, (p.workers w).job.isNone))

/-! ### Turns -/

variable {p}

theorem turn_cases {p' : Pool paths size} {τ : Turn paths.length size}
    (h : p.turn a t τ = some p') :
    (∃ w i, τ = .take w i ∧ i ∈ p.waiting ∧ (p.workers w).job = none ∧ p' = p.takeFile w i) ∨
    (∃ w i s, τ = .go w ∧ (p.workers w).job = some (i, .settling s []) ∧ p' = p.handIn w i s) ∨
    (∃ w i stage, τ = .go w ∧ (p.workers w).job = some (i, stage) ∧ (∀ s, stage ≠ .settling s []) ∧
      p' = p.goOn a t w i stage) := by
  cases τ with
  | take w i =>
    simp only [turn] at h
    split at h
    · next hcan =>
      cases h
      exact Or.inl ⟨w, i, rfl, hcan.1, Option.isNone_iff_eq_none.mp hcan.2, rfl⟩
    · cases h
  | go w =>
    simp only [turn] at h
    split at h
    · cases h
    · next i s hjob =>
      cases h
      exact Or.inr (Or.inl ⟨w, i, s, rfl, hjob, rfl⟩)
    · next i stage hne hjob =>
      cases h
      refine Or.inr (Or.inr ⟨w, i, stage, rfl, hjob, ?_, rfl⟩)
      rintro s rfl
      exact hne s rfl

theorem workers_setWorker (w : Fin size) (s : Worker paths.length) (v : Fin size) :
    (p.setWorker w s).workers v = if v = w then s else p.workers v :=
  Function.update_apply ..

theorem forall_setWorker {P : Worker paths.length → Prop} (h : ∀ v, P (p.workers v)) {w : Fin size}
    {s : Worker paths.length} (hs : P s) (v : Fin size) : P ((p.setWorker w s).workers v) := by
  rw [workers_setWorker]
  split
  · exact hs
  · exact h v

theorem isInWork_setWorker_self {w : Fin size} {s : Worker paths.length} {i : Fin paths.length}
    {stage : Inspector.Stage} (h : s.job = some (i, stage)) : (p.setWorker w s).IsInWork i :=
  ⟨w, stage, by rw [workers_setWorker, if_pos rfl, h]⟩

theorem IsInWork.setWorker {i : Fin paths.length} (h : p.IsInWork i) {w : Fin size}
    {s : Worker paths.length} (hw : ∀ stage, (p.workers w).job ≠ some (i, stage)) :
    (p.setWorker w s).IsInWork i := by
  obtain ⟨v, stage, hv⟩ := h
  have hvw : v ≠ w := by
    rintro rfl
    exact hw stage hv
  exact ⟨v, stage, by rw [workers_setWorker, if_neg hvw, hv]⟩

theorem sum_setWorker {M : Type} [AddCommMonoid M] (f : Worker paths.length → M) (w : Fin size)
    (s : Worker paths.length) :
    ∑ v, f ((p.setWorker w s).workers v) + f (p.workers w) = ∑ v, f (p.workers v) + f s := by
  have hothers : ∑ v ∈ Finset.univ.erase w, f ((p.setWorker w s).workers v) =
      ∑ v ∈ Finset.univ.erase w, f (p.workers v) := by
    refine Finset.sum_congr rfl fun v hv => ?_
    rw [workers_setWorker, if_neg (Finset.ne_of_mem_erase hv)]
  have hself : (p.setWorker w s).workers w = s := by rw [workers_setWorker, if_pos rfl]
  rw [← Finset.add_sum_erase _ _ (Finset.mem_univ w), hothers, hself,
    ← Finset.add_sum_erase _ (fun v => f (p.workers v)) (Finset.mem_univ w)]
  ac_rfl

/-! ### Sums over the files that are not done -/

section Total

variable {M : Type} [AddCommMonoid M] (g : Fin paths.length → M)
  (f : Fin paths.length → Inspector.Stage → M)

/-- The value of a worker's file at its stage. -/
def valueOf (s : Worker paths.length) : M := s.job.elim 0 fun j => f j.1 j.2

/-- The values of the files that wait, and of those in work at their stages. -/
def total (p : Pool paths size) : M := ∑ i ∈ p.waiting, g i + ∑ w, valueOf f (p.workers w)

theorem valueOf_of_job {s : Worker paths.length} {i : Fin paths.length} {stage : Inspector.Stage}
    (h : s.job = some (i, stage)) : valueOf f s = f i stage := by
  rw [valueOf, h, Option.elim_some]

theorem valueOf_of_idle {s : Worker paths.length} (h : s.job = none) : valueOf f s = 0 := by
  rw [valueOf, h, Option.elim_none]

theorem total_setWorker (w : Fin size) (s : Worker paths.length) :
    (p.setWorker w s).total g f + valueOf f (p.workers w) = p.total g f + valueOf f s := by
  have hworkers := sum_setWorker (p := p) (valueOf f) w s
  calc (p.setWorker w s).total g f + valueOf f (p.workers w)
      = ∑ i ∈ p.waiting, g i +
          (∑ v, valueOf f ((p.setWorker w s).workers v) + valueOf f (p.workers w)) := add_assoc ..
    _ = ∑ i ∈ p.waiting, g i + (∑ v, valueOf f (p.workers v) + valueOf f s) := by rw [hworkers]
    _ = p.total g f + valueOf f s := (add_assoc ..).symm

theorem total_takeFile {w : Fin size} {i : Fin paths.length} (hi : i ∈ p.waiting)
    (hjob : (p.workers w).job = none) :
    (p.takeFile w i).total g f + g i = p.total g f + f i .taken := by
  have hworker := total_setWorker (p := p) g f w ⟨(p.workers w).extractor, some (i, .taken)⟩
  rw [valueOf_of_idle f hjob, add_zero, valueOf_of_job f rfl] at hworker
  rw [← hworker]
  have hwaiting : ∑ j ∈ p.waiting.erase i, g j + g i = ∑ j ∈ p.waiting, g j :=
    Finset.sum_erase_add _ _ hi
  calc (p.takeFile w i).total g f + g i
      = (∑ j ∈ p.waiting.erase i, g j + g i) + _ := add_right_comm ..
    _ = (p.setWorker w _).total g f := by rw [hwaiting]; rfl

theorem total_handIn {w : Fin size} {i : Fin paths.length} {s : FileSummary}
    (hjob : (p.workers w).job = some (i, .settling s [])) :
    (p.handIn w i s).total g f + f i (.settling s []) = p.total g f := by
  have hworker := total_setWorker (p := p) g f w ⟨(p.workers w).extractor, none⟩
  rw [valueOf_of_job f hjob, valueOf_of_idle f rfl, add_zero] at hworker
  exact hworker

theorem total_goOn {w : Fin size} {i : Fin paths.length} {stage : Inspector.Stage}
    (hjob : (p.workers w).job = some (i, stage)) :
    (p.goOn a t w i stage).total g f + f i stage =
      p.total g f + f i (a.proceed t (paths.get i) (p.workers w).extractor stage).2.2 := by
  have hworker := total_setWorker (p := p) g f w
    ⟨(a.proceed t (paths.get i) (p.workers w).extractor stage).1,
      some (i, (a.proceed t (paths.get i) (p.workers w).extractor stage).2.2)⟩
  rw [valueOf_of_job f hjob, valueOf_of_job f rfl] at hworker
  exact hworker

end Total

/-- A bound on the number of turns to come. -/
def left (p : Pool paths size) : Nat := p.total (fun _ => 7) fun _ stage => stage.left

theorem left_turn {p' : Pool paths size} {τ : Turn paths.length size} (h : p.turn a t τ = some p') :
    p'.left < p.left := by
  rcases turn_cases a t h with
    ⟨w, i, -, hi, hjob, rfl⟩ | ⟨w, i, s, -, hjob, rfl⟩ | ⟨w, i, stage, -, hjob, hne, rfl⟩
  · have htotal := total_takeFile (fun _ => 7) (fun _ stage => stage.left) hi hjob
    have htaken : Inspector.Stage.taken.left = 6 := rfl
    unfold left
    omega
  · have htotal := total_handIn (fun _ => 7) (fun _ stage => stage.left) hjob
    have hdone : (Inspector.Stage.settling s []).left = 1 := rfl
    unfold left
    omega
  · have htotal := total_goOn a t (fun _ => 7) (fun _ stage => stage.left) hjob
    have hlt := a.left_proceed t (paths.get i) (p.workers w).extractor hne
    unfold left
    omega

theorem left_start (e : Option Extractor) (tally : Tally) :
    (start paths size e tally).left = 7 * paths.length := by
  simp [left, total, start, valueOf, Nat.mul_comm]

/-! ### What every pool comes to -/

variable (e : Option Extractor) (tally : Tally)

/-- The events that have not been counted yet. -/
def owed (p : Pool paths size) : Multiset Tally.Event :=
  p.total (fun i => ↑(a.inspect t e (paths.get i)).events) fun i stage =>
    ↑(stage.owed a t (paths.get i) e)

theorem owed_takeFile {w : Fin size} {i : Fin paths.length} (hi : i ∈ p.waiting)
    (hjob : (p.workers w).job = none) : (p.takeFile w i).owed a t e = p.owed a t e :=
  add_right_cancel (total_takeFile (M := Multiset Tally.Event) _ _ hi hjob)

theorem owed_handIn {w : Fin size} {i : Fin paths.length} {s : FileSummary}
    (hjob : (p.workers w).job = some (i, .settling s [])) :
    (p.handIn w i s).owed a t e = p.owed a t e :=
  (add_zero _).symm.trans (total_handIn (M := Multiset Tally.Event) _ _ hjob)

/-- What a step counts is what the pool owes no longer. -/
theorem owed_goOn {w : Fin size} {i : Fin paths.length} {stage : Inspector.Stage}
    (hx : (p.workers w).extractor.isSome = e.isSome) (hjob : (p.workers w).job = some (i, stage)) :
    ↑(a.proceed t (paths.get i) (p.workers w).extractor stage).2.1.toList +
      (p.goOn a t w i stage).owed a t e = p.owed a t e := by
  obtain ⟨-, howes, -⟩ := a.proceed_spec t (paths.get i) hx stage
  have htotal := total_goOn (M := Multiset Tally.Event) a t
    (fun i => ↑(a.inspect t e (paths.get i)).events)
    (fun i stage => ↑(stage.owed a t (paths.get i) e)) hjob
  rw [howes, ← Multiset.coe_add, ← add_assoc] at htotal
  rw [add_comm]
  exact add_right_cancel htotal

/-- A worker whose extractor is there if it was at the start, and whose file will have its right
summary. -/
structure IsReliable (s : Worker paths.length) : Prop where
  extractor : s.extractor.isSome = e.isSome
  summary : ∀ {i stage}, s.job = some (i, stage) →
    stage.summary a t (paths.get i) e = (a.inspect t e (paths.get i)).summary

/-- What holds of a pool whose turns began with the given extractor and counters. -/
structure IsSound (p : Pool paths size) : Prop where
  worker : ∀ w, IsReliable a t e (p.workers w)
  /-- A file waits, or is in work, or has its summary. -/
  file : ∀ i, i ∈ p.waiting ∨ p.IsInWork i ∨
    p.summaries i = some (a.inspect t e (paths.get i)).summary
  /-- The counters, with what is owed, come to those of one worker. -/
  tally : (p.owed a t e).foldl Tally.count p.tally = (a.inspectAll t e tally paths).2

theorem owed_start :
    (start paths size e tally).owed a t e = ↑(paths.flatMap fun p => (a.inspect t e p).events) := by
  have hidle : ∑ w, valueOf
      (fun i stage => (↑(stage.owed a t (paths.get i) e) : Multiset Tally.Event))
      ((start paths size e tally).workers w) = 0 := Finset.sum_eq_zero fun _ _ => rfl
  have hsum := Fin.sum_univ_fun_getElem paths fun p =>
    (↑(a.inspect t e p).events : Multiset Tally.Event)
  rw [owed, total, hidle, add_zero]
  refine hsum.trans ?_
  clear hsum hidle
  induction paths with
  | nil => rfl
  | cons path rest ih => rw [List.map_cons, List.sum_cons, ih, List.flatMap_cons, Multiset.coe_add]

theorem isSound_start : (start paths size e tally).IsSound a t e tally where
  worker _ := ⟨rfl, fun h => by cases h⟩
  file i := Or.inl (Finset.mem_univ i)
  tally := by rw [owed_start, Multiset.coe_foldl, a.inspectAll_snd]; rfl

variable {a t e tally}

namespace IsSound

variable (hp : p.IsSound a t e tally)

include hp

theorem takeFile {w : Fin size} {i : Fin paths.length} (hi : i ∈ p.waiting)
    (hjob : (p.workers w).job = none) : (p.takeFile w i).IsSound a t e tally := by
  refine ⟨forall_setWorker hp.worker ⟨(hp.worker w).extractor, fun h => ?_⟩, fun j => ?_, ?_⟩
  · cases h
    rfl
  · -- the file that is taken no longer waits, but is in work
    by_cases hj : j = i
    · subst hj
      exact Or.inr (Or.inl (isInWork_setWorker_self rfl))
    · rcases hp.file j with hwaits | hwork | hdone
      · exact Or.inl (Finset.mem_erase.mpr ⟨hj, hwaits⟩)
      · refine Or.inr (Or.inl (hwork.setWorker fun stage h => ?_))
        rw [hjob] at h
        cases h
      · exact Or.inr (Or.inr hdone)
  · rw [owed_takeFile a t e hi hjob]
    exact hp.tally

theorem handIn {w : Fin size} {i : Fin paths.length} {s : FileSummary}
    (hjob : (p.workers w).job = some (i, .settling s [])) :
    (p.handIn w i s).IsSound a t e tally := by
  refine ⟨forall_setWorker hp.worker ⟨(hp.worker w).extractor, fun h => by cases h⟩,
    fun j => ?_, ?_⟩
  · have hsummaries : (p.handIn w i s).summaries j = if j = i then some s else p.summaries j :=
      Function.update_apply ..
    by_cases hj : j = i
    · subst hj
      rw [hsummaries, if_pos rfl]
      exact Or.inr (Or.inr (congrArg some ((hp.worker w).summary hjob)))
    · rw [hsummaries, if_neg hj]
      rcases hp.file j with hwaits | hwork | hdone
      · exact Or.inl hwaits
      · refine Or.inr (Or.inl (hwork.setWorker fun stage h => ?_))
        rw [hjob] at h
        cases h
        exact hj rfl
      · exact Or.inr (Or.inr hdone)
  · rw [owed_handIn a t e hjob]
    exact hp.tally

theorem goOn {w : Fin size} {i : Fin paths.length} {stage : Inspector.Stage}
    (hjob : (p.workers w).job = some (i, stage)) : (p.goOn a t w i stage).IsSound a t e tally := by
  obtain ⟨hextractor, -, hsummary⟩ := a.proceed_spec t (paths.get i) (hp.worker w).extractor stage
  refine ⟨forall_setWorker hp.worker ⟨hextractor, fun h => ?_⟩, fun j => ?_, ?_⟩
  · cases h
    exact hsummary.trans ((hp.worker w).summary hjob)
  · rcases hp.file j with hwaits | hwork | hdone
    · exact Or.inl hwaits
    · refine Or.inr (Or.inl ?_)
      by_cases hj : j = i
      · subst hj
        exact isInWork_setWorker_self rfl
      · refine hwork.setWorker fun s h => ?_
        rw [hjob] at h
        cases h
        exact hj rfl
    · exact Or.inr (Or.inr hdone)
  · rw [← hp.tally, ← owed_goOn a t e (hp.worker w).extractor hjob, Multiset.foldl_add,
      Multiset.coe_foldl]
    rfl

/-- **One turn** keeps a pool sound. -/
theorem turn {p' : Pool paths size} {τ : Turn paths.length size} (h : p.turn a t τ = some p') :
    p'.IsSound a t e tally := by
  rcases turn_cases a t h with
    ⟨w, i, -, hi, hjob, rfl⟩ | ⟨w, i, s, -, hjob, rfl⟩ | ⟨w, i, stage, -, hjob, -, rfl⟩
  · exact hp.takeFile hi hjob
  · exact hp.handIn hjob
  · exact hp.goOn hjob

theorem finished (hdone : p.IsFinished) :
    List.ofFn p.summaries = (a.inspectAll t e tally paths).1.map some ∧
      p.tally = (a.inspectAll t e tally paths).2 := by
  obtain ⟨hwaiting, hidle⟩ := hdone
  have hjob : ∀ w, (p.workers w).job = none := fun w => Option.isNone_iff_eq_none.mp (hidle w)
  constructor
  · have hsummaries : p.summaries = fun i => some (a.inspect t e (paths.get i)).summary := by
      funext i
      rcases hp.file i with hwaits | ⟨w, stage, hw⟩ | h
      · rw [hwaiting] at hwaits
        cases hwaits
      · rw [hjob w] at hw
        cases hw
      · exact h
    rw [hsummaries, a.inspectAll_summaries, List.map_map]
    have hget : (List.ofFn paths.get).map (some ∘ fun p => (a.inspect t e p).summary) =
        List.ofFn fun i => some (a.inspect t e (paths.get i)).summary := List.map_ofFn
    rw [List.ofFn_get] at hget
    exact hget.symm
  · have howed : p.owed a t e = 0 := by
      rw [owed, total, hwaiting, Finset.sum_empty, zero_add]
      exact Finset.sum_eq_zero fun w _ => valueOf_of_idle _ (hjob w)
    have htally := hp.tally
    rwa [howed, Multiset.foldl_zero] at htally

end IsSound

/-- **All turns** keep a pool sound, and there are not many. -/
theorem isSound_play {turns : List (Turn paths.length size)} {p p' : Pool paths size}
    (hp : p.IsSound a t e tally)
    (h : p.play a t turns = some p') :
    p'.IsSound a t e tally ∧ turns.length + p'.left ≤ p.left := by
  induction turns generalizing p with
  | nil =>
    cases h
    exact ⟨hp, by simp⟩
  | cons τ turns ih =>
    rw [play, List.foldlM_cons, Option.bind_eq_bind, Option.bind_eq_some_iff] at h
    obtain ⟨q, hturn, hplay⟩ := h
    obtain ⟨hsound, hlength⟩ := ih (hp.turn hturn) hplay
    have hleft := left_turn a t hturn
    refine ⟨hsound, ?_⟩
    rw [List.length_cons]
    omega

theorem turn_go {w : Fin size} {j : Fin paths.length × Inspector.Stage}
    (h : (p.workers w).job = some j) :
    ∃ p', p.turn a t (.go w) = some p' := by
  simp only [Pool.turn, h]
  split
  · next hnone => cases hnone
  · exact ⟨_, rfl⟩
  · exact ⟨_, rfl⟩

/-- A pool that is not finished has a turn, whoever is to take the files that wait. -/
theorem exists_turn (h : ¬p.IsFinished) (who : Fin paths.length → Fin size) :
    ∃ τ p', p.turn a t τ = some p' ∧ ∀ w i, τ = .take w i → w = who i := by
  by_cases hbusy : ∃ w j, (p.workers w).job = some j
  · obtain ⟨w, j, hj⟩ := hbusy
    obtain ⟨p', hturn⟩ := turn_go (a := a) (t := t) hj
    exact ⟨.go w, p', hturn, fun _ _ hgo => by cases hgo⟩
  · have hidle : ∀ w, (p.workers w).job = none := by
      intro w
      cases hj : (p.workers w).job with
      | none => rfl
      | some j => exact absurd ⟨w, j, hj⟩ hbusy
    have hwaits : p.waiting.Nonempty := by
      rw [Finset.nonempty_iff_ne_empty]
      intro hnone
      exact h ⟨hnone, fun w => by rw [hidle w]; rfl⟩
    obtain ⟨i, hi⟩ := hwaits
    refine ⟨.take (who i) i, p.takeFile (who i) i, if_pos ⟨hi, by rw [hidle]; rfl⟩, ?_⟩
    intro w j htake
    cases htake
    rfl

/-- From every pool some turns finish the work, whoever is to take the files that wait. -/
theorem exists_finish (p : Pool paths size) (who : Fin paths.length → Fin size) :
    ∃ turns p', p.play a t turns = some p' ∧ p'.IsFinished ∧
      ∀ w i, .take w i ∈ turns → w = who i := by
  -- a worker that has a file goes on; only when all are idle is the next file taken, by its worker
  induction hn : p.left using Nat.strong_induction_on generalizing p with
  | _ n ih =>
    by_cases hdone : p.IsFinished
    · exact ⟨[], p, rfl, hdone, fun w i h => by cases h⟩
    · obtain ⟨τ, q, hturn, hτ⟩ := exists_turn (a := a) (t := t) hdone who
      obtain ⟨turns, p', hplay, hfinished, htakes⟩ := ih q.left (hn ▸ left_turn a t hturn) q rfl
      refine ⟨τ :: turns, p', ?_, hfinished, fun w i h => ?_⟩
      · rw [play, List.foldlM_cons, hturn]
        exact hplay
      · rcases List.mem_cons.mp h with heq | hmem
        · exact hτ w i heq.symm
        · exact htakes w i hmem

variable (a t e tally)

/-- **Any number of workers**, whoever takes which file and however their turns are mixed, come to
the summaries and the counters of one worker that inspects the files in their order. No choice of
turns goes on for ever, and from each pool on the way, for each choice of who takes what still
waits, the work can be finished. -/
theorem schedules_agree {turns : List (Turn paths.length size)} {p : Pool paths size}
    (h : (start paths size e tally).play a t turns = some p) :
    (p.IsFinished → List.ofFn p.summaries = (a.inspectAll t e tally paths).1.map some ∧
      p.tally = (a.inspectAll t e tally paths).2) ∧
    turns.length ≤ 7 * paths.length ∧
    ∀ who : Fin paths.length → Fin size, ∃ more p', p.play a t more = some p' ∧ p'.IsFinished ∧
      ∀ w i, .take w i ∈ more → w = who i := by
  obtain ⟨hsound, hlength⟩ := isSound_play (isSound_start a t e tally) h
  rw [left_start] at hlength
  exact ⟨hsound.finished, by omega, exists_finish p⟩

/-- Two workers: while the first is busy with `a`, the second finds that there is no `b` and hands
that in. -/
theorem schedules_agree_two :
    let t : FileTree := { entries := [([[0x61]], .file (Utf8.encode "# TODO x".toList))] }
    let a : Inspector := ⟨['.'], true⟩
    let paths : List Path := [['a'], ['b']]
    let turns : List (Turn paths.length 2) :=
      [.take 0 0, .take 1 1, .go 0, .go 1, .go 0, .go 1, .go 0, .go 1, .go 0, .go 0, .go 0]
    ∃ p, (start paths 2 (some .fresh) .zero).play a t turns = some p ∧ p.IsFinished ∧
      List.ofFn p.summaries = (a.inspectAll t (some .fresh) .zero paths).1.map some ∧
      p.tally = (a.inspectAll t (some .fresh) .zero paths).2 := by
  intro t a paths turns
  have hread : t.read (Utf8.encode ['a']) = .ok (Utf8.encode "# TODO x".toList) := by decide +kernel
  have hrefused : t.read (Utf8.encode ['b']) = .error .notFound := by decide +kernel
  have hplay : ∃ p, (start paths 2 (some .fresh) .zero).play a t turns = some p ∧ p.IsFinished := by
    have hnone : ((Finset.univ : Finset (Fin 2)).erase 0).erase 1 = ∅ := by decide
    simp [play, turns, turn, start, takeFile, setWorker, goOn, handIn, Inspector.proceed, paths,
      hread, hrefused,
      Inspector.inspectContent, IsFinished, hnone]
  obtain ⟨p, hp, hfinished⟩ := hplay
  exact ⟨p, hp, hfinished, (schedules_agree a t (some .fresh) .zero hp).1 hfinished⟩

end Pool

end ActionItems
