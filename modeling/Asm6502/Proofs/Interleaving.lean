import Asm6502.Proofs.Gathering
import Asm6502.Proofs.OpenDocuments

/-!
# Indices made in the background

A task is given when a text is new, and it may end at any later time or never. In between documents
are opened, changed and closed. A document counts its own changes, so a task that is late by a
change is told apart. The count begins anew when a document is opened again, and a task that was
given before is then not told apart.

## Main definitions

- `Indexing`: a workspace and the tasks under way.
- `Indexing.Step`: what may happen next.
- `Indexing.Idle`: no task is under way for a document.

## Main statements

- `Indexing.Consistent.step`, `Indexing.Consistent.steps`: tasks that are late do no harm as long as
  documents are opened only when no task is under way for them.
-/

namespace Asm6502

/-- The task agrees with its document in the text and the dialect, or it is behind. -/
def ParseTask.Fits (task : ParseTask) (w : Workspace) : Prop :=
  ∀ doc, w.document? task.uri = some doc → task.generation ≤ doc.generation ∧
    (task.generation = doc.generation → task.source = doc.source ∧ task.dialect = doc.dialect)

/-- A workspace and the tasks under way, which index texts that its documents have or once had. -/
structure Indexing where
  workspace : Workspace
  pending : List ParseTask := []

namespace Indexing

/-- No task is under way for the document. -/
def Idle (s : Indexing) (uri : String) : Prop :=
  ∀ task ∈ s.pending, task.uri ≠ uri

/-- What may happen next, where documents are opened only as `mayOpen` allows. -/
inductive Step (mayOpen : Indexing → String → Prop) : Indexing → Indexing → Prop where
  | opened {w : Workspace} {pending : List ParseTask} (uri : String) (version : Int)
      (source : Bytes) (allowed : mayOpen ⟨w, pending⟩ uri) :
      Step mayOpen ⟨w, pending⟩ ⟨w.openDocument uri version source, pending⟩
  | changed {w : Workspace} {pending : List ParseTask} (uri : String) (version : Int)
      (source : Bytes) :
      Step mayOpen ⟨w, pending⟩ ⟨w.changeDocument uri version source, pending⟩
  | closed {w : Workspace} {pending : List ParseTask} (uri : String) :
      Step mayOpen ⟨w, pending⟩ ⟨w.closeDocument uri, pending⟩
  | preferred {w : Workspace} {pending : List ParseTask} (d : Dialect) :
      Step mayOpen ⟨w, pending⟩ ⟨{ w with override? := some d }, pending⟩
  /-- A task is given. -/
  | started {w : Workspace} {pending : List ParseTask} {uri : String} {task : ParseTask}
      (given : w.task? uri = some task) :
      Step mayOpen ⟨w, pending⟩ ⟨w, task :: pending⟩
  /-- A task ends, in whatever order the tasks were given. -/
  | finished {w : Workspace} (front back : List ParseTask) (task : ParseTask) :
      Step mayOpen ⟨w, front ++ task :: back⟩ ⟨(w.finish task).1, front ++ back⟩
  /-- A task is given up. -/
  | cancelled {w : Workspace} (front back : List ParseTask) (task : ParseTask) :
      Step mayOpen ⟨w, front ++ task :: back⟩ ⟨w, front ++ back⟩
  /-- A question is asked about a document. -/
  | asked {w : Workspace} {pending : List ParseTask} (uri : String) :
      Step mayOpen ⟨w, pending⟩ ⟨(w.currentIndex uri).1, pending⟩

/-- Fresh indices are of the current texts, and the tasks under way do not change that. -/
structure Consistent (s : Indexing) : Prop where
  current : s.workspace.Current
  fits : ∀ task ∈ s.pending, task.Fits s.workspace

end Indexing

namespace ParseTask.Fits

variable {task : ParseTask} {w : Workspace}

theorem of_document?_eq {w' : Workspace} (h : task.Fits w)
    (heq : w'.document? task.uri = w.document? task.uri) : task.Fits w' := by
  intro doc hdoc
  exact h doc (heq ▸ hdoc)

theorem openDocument (h : task.Fits w) {uri : String} (hne : task.uri ≠ uri) (version : Int)
    (source : Bytes) : task.Fits (w.openDocument uri version source) :=
  h.of_document?_eq (by rw [Workspace.document?_openDocument, if_neg hne])

theorem changeDocument (h : task.Fits w) (uri : String) (version : Int) (source : Bytes) :
    task.Fits (w.changeDocument uri version source) := by
  by_cases hne : task.uri = uri
  · intro doc hdoc
    rw [Workspace.document?_changeDocument, if_pos hne, ← hne] at hdoc
    obtain ⟨earlier, hearlier, rfl⟩ := Option.map_eq_some_iff.1 hdoc
    -- the count of changes has gone past the task for good
    have hle : task.generation < earlier.generation + 1 := Nat.lt_succ_of_le (h earlier hearlier).1
    exact ⟨Nat.le_of_lt hle, fun heq => absurd heq (Nat.ne_of_lt hle)⟩
  · exact h.of_document?_eq (by rw [Workspace.document?_changeDocument, if_neg hne])

theorem closeDocument (h : task.Fits w) (uri : String) : task.Fits (w.closeDocument uri) := by
  intro doc hdoc
  rw [Workspace.document?_closeDocument] at hdoc
  split at hdoc
  · cases hdoc
  · exact h doc hdoc

theorem keep (h : task.Fits w) {uri : String} {doc : Document} (hdoc : w.document? uri = some doc)
    (ix : SymbolIndex) : task.Fits (w.setDocument uri (doc.keep ix)) := by
  intro doc' hdoc'
  rw [Workspace.document?_setDocument] at hdoc'
  split at hdoc'
  · rename_i heq
    obtain rfl : doc.keep ix = doc' := Option.some.inj hdoc'
    exact h doc (heq ▸ hdoc)
  · exact h doc' hdoc'

/-- A task that has just been given. -/
theorem of_task? {uri : String} (h : w.task? uri = some task) : task.Fits w := by
  obtain ⟨doc, hdoc, rfl⟩ := Option.map_eq_some_iff.1 h
  intro doc' hdoc'
  obtain rfl : doc = doc' := Option.some.inj (hdoc.symm.trans hdoc')
  exact ⟨Nat.le_refl _, fun _ => ⟨rfl, rfl⟩⟩

/-- The end of a task changes nothing, or the index of the current text is kept. -/
theorem finish (h : task.Fits w) :
    (w.finish task).1 = w ∨ ∃ doc, w.document? task.uri = some doc ∧
      (w.finish task).1 = w.setDocument task.uri (doc.keep (.parse doc.dialect doc.source)) := by
  unfold Workspace.finish Workspace.store?
  cases hdoc : w.document? task.uri with
  | none => exact .inl rfl
  | some doc =>
    dsimp only
    by_cases hgeneration : doc.generation = task.generation
    · obtain ⟨hsource, hdialect⟩ := (h doc hdoc).2 hgeneration.symm
      refine .inr ⟨doc, rfl, ?_⟩
      rw [if_pos hgeneration, ParseTask.index, hsource, hdialect]
    · exact .inl (by rw [if_neg hgeneration])

end ParseTask.Fits

namespace Indexing.Consistent

variable {s s' : Indexing} {w : Workspace} {pending : List ParseTask}

/-- Keeping the index of the current text. -/
theorem keep (h : Consistent ⟨w, pending⟩) {uri : String} {doc : Document}
    (hdoc : w.document? uri = some doc) :
    Consistent ⟨w.setDocument uri (doc.keep (.parse doc.dialect doc.source)), pending⟩ :=
  ⟨h.current.keep uri doc, fun task htask => (h.fits task htask).keep hdoc _⟩

theorem mono {pending' : List ParseTask} (h : Consistent ⟨w, pending⟩)
    (hsub : ∀ task ∈ pending', task ∈ pending) : Consistent ⟨w, pending'⟩ :=
  ⟨h.current, fun task htask => h.fits task (hsub task htask)⟩

theorem step (h : s.Consistent) (hstep : Step Idle s s') : s'.Consistent := by
  cases hstep with
  | opened uri version source idle =>
    exact ⟨h.current.openDocument uri version source,
      fun task htask => (h.fits task htask).openDocument (idle task htask) version source⟩
  | changed uri version source =>
    exact ⟨h.current.changeDocument uri version source,
      fun task htask => (h.fits task htask).changeDocument uri version source⟩
  | closed uri =>
    exact ⟨h.current.closeDocument uri, fun task htask => (h.fits task htask).closeDocument uri⟩
  | preferred d => exact ⟨h.current, h.fits⟩
  | started given =>
    refine ⟨h.current, fun task htask => ?_⟩
    rcases List.mem_cons.1 htask with rfl | htask
    · exact .of_task? given
    · exact h.fits task htask
  | @finished w front back task =>
    -- the workspace is the same or keeps what it could have made itself
    have rest : Consistent ⟨w, front ++ back⟩ := h.mono (by simp +contextual [or_imp])
    rcases (h.fits task (by simp)).finish with heq | ⟨doc, hdoc, heq⟩
    · rw [heq]
      exact rest
    · rw [heq]
      exact rest.keep hdoc
  | cancelled front back task => exact h.mono (by simp +contextual [or_imp])
  | @asked w pending uri =>
    cases hdoc : w.document? uri with
    | none =>
      rw [Workspace.currentIndex_of_not_open hdoc]
      exact h
    | some doc =>
      obtain ⟨-, hw | hw⟩ := h.current.currentIndex hdoc
      · rw [hw]
        exact h
      · rw [hw]
        exact h.keep hdoc

theorem steps (h : s.Consistent) (hsteps : Relation.ReflTransGen (Step Idle) s s') :
    s'.Consistent := by
  induction hsteps with
  | refl => exact h
  | tail _ hstep ih => exact ih.step hstep

end Indexing.Consistent

namespace Indexing

theorem consistent_initial (settings : Settings) : Consistent { workspace := { settings } } :=
  ⟨Workspace.current_of_no_documents settings, by simp⟩

/-- Whatever happens in whatever order, a fresh index is that of the current text, and questions are
answered from that text, if documents are opened only when no task is under way for them. -/
theorem fresh_index_of_steps (settings : Settings) (s : Indexing)
    (h : Relation.ReflTransGen (Step Idle) { workspace := { settings } } s) (uri : String)
    (doc : Document) (hdoc : s.workspace.document? uri = some doc) :
    (∀ ix, doc.freshIndex? = some ix → ix = .parse doc.dialect doc.source) ∧
      (s.workspace.currentIndex uri).2 = some (.parse doc.dialect doc.source) := by
  have current := ((consistent_initial settings).steps h).current
  exact ⟨(current uri doc hdoc).eq_parse, (current.currentIndex hdoc).1⟩

/-- A task that ends after its document has changed. -/
theorem fresh_index_of_late_task :
    let w := Workspace.openDocument { settings := {} } "u" 1 [0x61]
    let task : ParseTask := ⟨"u", [0x61], .acme, 0, 1⟩
    let s : Indexing := ⟨((w.changeDocument "u" 2 []).finish task).1, []⟩
    let doc : Document := { source := [], version := 2, dialect := .acme, generation := 1 }
    Relation.ReflTransGen (Step Idle) { workspace := { settings := {} } } s ∧
      s.workspace.document? "u" = some doc ∧
      (s.workspace.currentIndex "u").2 = some (.parse .acme []) := by
  intro w task s doc
  have hdialect : Workspace.dialectFor { settings := {} } "u" = .acme := by cbv
  have hopened : w.document? "u" = some { source := [0x61], version := 1, dialect := .acme } := by
    rw [Workspace.document?_openDocument, if_pos rfl, hdialect]
  have hchanged : (w.changeDocument "u" 2 []).document? "u" = some doc := by
    rw [Workspace.document?_changeDocument, if_pos rfl, hopened]
    rfl
  have hlate : ((w.changeDocument "u" 2 []).finish task).1 = w.changeDocument "u" 2 [] := by
    simp [Workspace.finish, Workspace.store?, task, hchanged, doc]
  have hdoc : s.workspace.document? "u" = some doc := by
    simp only [s, hlate, hchanged]
  have steps : Relation.ReflTransGen (Step Idle) { workspace := { settings := {} } } s := by
    have given : w.task? "u" = some task := by rw [Workspace.task?, hopened]; rfl
    refine .tail (.tail (.tail (.single (.opened "u" 1 [0x61] ?_)) (.started given))
      (.changed "u" 2 [])) (.finished [] [] task)
    simp [Idle]
  exact ⟨steps, hdoc, (fresh_index_of_steps {} s steps "u" doc hdoc).2⟩

/-- A document is opened, and opened again with an empty text. Then the task for the first text
ends. Its index, which has a token, now counts as that of the empty text. -/
theorem stale_index_of_reopened_document :
    ∃ s doc ix, Relation.ReflTransGen (Step fun _ _ => True)
        { workspace := { settings := {} } } s ∧
      s.workspace.document? "u" = some doc ∧ doc.source = [] ∧ doc.freshIndex? = some ix ∧
      (s.workspace.currentIndex "u").2 = some ix ∧ ix.tokens.size = 1 ∧
      ix ≠ .parse doc.dialect doc.source := by
  let w := Workspace.openDocument { settings := {} } "u" 1 [0x61]
  let w' := w.openDocument "u" 2 []
  let first : ParseTask := ⟨"u", [0x61], .acme, 0, 1⟩
  let second : ParseTask := ⟨"u", [], .acme, 0, 2⟩
  let doc : Document := { source := [], version := 2, dialect := .acme }
  have hdialect : Workspace.dialectFor { settings := {} } "u" = .acme := by cbv
  have hopened : w.document? "u" = some { source := [0x61], version := 1, dialect := .acme } := by
    rw [Workspace.document?_openDocument, if_pos rfl, hdialect]
  have hreopened : w'.document? "u" = some doc := by
    rw [Workspace.document?_openDocument, if_pos rfl]
    exact congrArg (fun d => some { doc with dialect := d }) hdialect
  have hfinish : (w'.finish first).1 = w'.setDocument "u" (doc.keep first.index) := by
    simp [Workspace.finish, Workspace.store?, first, hreopened, doc]
  have hdoc : (w'.finish first).1.document? "u" = some (doc.keep first.index) := by
    rw [hfinish, Workspace.document?_setDocument, if_pos rfl]
  have hfresh : (doc.keep first.index).freshIndex? = some first.index := rfl
  refine ⟨⟨(w'.finish first).1, [second]⟩, doc.keep first.index, first.index, ?_, hdoc, rfl, hfresh,
    ?_, ?_, ?_⟩
  · have given : w.task? "u" = some first := by rw [Workspace.task?, hopened]; rfl
    have given' : w'.task? "u" = some second := by rw [Workspace.task?, hreopened]; rfl
    exact .tail (.tail (.tail (.tail (.single (.opened "u" 1 [0x61] trivial)) (.started given))
      (.opened "u" 2 [] trivial)) (.started given')) (.finished [second] [] first)
  · simp only [Workspace.currentIndex, hdoc, hfresh]
  · have hlexemes : SymbolIndex.lexemes .acme [0x61] = [.token .identifier [.char 'a']] := by cbv
    rw [← Array.length_toList, ParseTask.index, SymbolIndex.tokens_parse, hlexemes]
    rfl
  · intro heq
    exact absurd (congrArg SymbolIndex.source heq) (by decide)

end Indexing

end Asm6502
