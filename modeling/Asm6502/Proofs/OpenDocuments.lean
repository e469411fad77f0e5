import Asm6502.Server.Workspace
import Mathlib

/-!
# Open documents

What each operation does to the documents of a workspace. The index that a document keeps is of its
current text if the generations agree, and no operation breaks this but the end of a task whose
document is no longer the one that the task was given for.

## Main definitions

- `Document.Current`: the fresh index of a document is that of its text.
- `Workspace.Current`: so it is for every open document.
-/

namespace Asm6502

namespace Document

variable {doc : Document}

/-- An index of the current generation is the index of the text. -/
structure Current (doc : Document) : Prop where
  eq_parse : ∀ ix, doc.freshIndex? = some ix → ix = .parse doc.dialect doc.source
  le_generation : doc.indexGeneration ≤ doc.generation

theorem current_of_no_index (source : Bytes) (version : Int) (d : Dialect) :
    Current { source, version, dialect := d } :=
  ⟨by simp [freshIndex?], Nat.le_refl _⟩

theorem Current.change (h : doc.Current) (version : Int) (source : Bytes) :
    (doc.change version source).Current := by
  have hlt : doc.indexGeneration < doc.generation + 1 := Nat.lt_succ_of_le h.le_generation
  refine ⟨fun ix hix => ?_, Nat.le_of_lt hlt⟩
  simp [freshIndex?, Document.change, Nat.ne_of_lt hlt] at hix

theorem current_keep (doc : Document) :
    (doc.keep (.parse doc.dialect doc.source)).Current := by
  refine ⟨fun ix hix => ?_, Nat.le_refl _⟩
  simp only [freshIndex?, keep, if_true] at hix
  exact (Option.some.inj hix).symm

end Document

namespace Workspace

variable {w : Workspace}

/-! ## The documents after an operation -/

theorem document?_setDocument (w : Workspace) (uri : String) (doc : Document) (uri' : String) :
    (w.setDocument uri doc).document? uri' = if uri' = uri then some doc else w.document? uri' := by
  split
  · rename_i h
    rw [h]
    exact Table.find?_insert_self _ _ _
  · rename_i h
    exact Table.find?_insert_of_ne h _ _

theorem document?_closeDocument (w : Workspace) (uri uri' : String) :
    (w.closeDocument uri).document? uri' = if uri' = uri then none else w.document? uri' := by
  split
  · rename_i h
    rw [h]
    exact Table.find?_erase_self _ _
  · rename_i h
    exact Table.find?_erase_of_ne h _

theorem document?_openDocument (w : Workspace) (uri : String) (version : Int) (source : Bytes)
    (uri' : String) :
    (w.openDocument uri version source).document? uri' =
      if uri' = uri then some { source, version, dialect := w.dialectFor uri }
      else w.document? uri' :=
  document?_setDocument w uri _ uri'

theorem document?_changeDocument (w : Workspace) (uri : String) (version : Int) (source : Bytes)
    (uri' : String) :
    (w.changeDocument uri version source).document? uri' =
      if uri' = uri then (w.document? uri).map (·.change version source)
      else w.document? uri' := by
  unfold changeDocument
  split
  · rename_i doc hdoc
    rw [document?_setDocument, hdoc]
    rfl
  · rename_i hnone
    split
    · rename_i h
      rw [h, hnone]
      rfl
    · rfl

/-! ## Current indices -/

/-- All indices that count as fresh are of the texts as they are now. -/
def Current (w : Workspace) : Prop :=
  ∀ uri doc, w.document? uri = some doc → doc.Current

theorem current_of_no_documents (settings : Settings) : Current { settings } := by
  intro uri doc hdoc
  simp [document?, Table.find?] at hdoc

theorem Current.setDocument (h : w.Current) {doc : Document} (hdoc : doc.Current) (uri : String) :
    (w.setDocument uri doc).Current := by
  intro uri' doc' hdoc'
  rw [document?_setDocument] at hdoc'
  split at hdoc'
  · obtain rfl : doc = doc' := Option.some.inj hdoc'
    exact hdoc
  · exact h uri' doc' hdoc'

theorem Current.openDocument (h : w.Current) (uri : String) (version : Int) (source : Bytes) :
    (w.openDocument uri version source).Current :=
  h.setDocument (Document.current_of_no_index source version _) uri

theorem Current.changeDocument (h : w.Current) (uri : String) (version : Int) (source : Bytes) :
    (w.changeDocument uri version source).Current := by
  unfold Workspace.changeDocument
  split
  · rename_i doc hdoc
    exact h.setDocument ((h uri doc hdoc).change version source) uri
  · exact h

theorem Current.closeDocument (h : w.Current) (uri : String) : (w.closeDocument uri).Current := by
  intro uri' doc hdoc
  rw [document?_closeDocument] at hdoc
  split at hdoc
  · cases hdoc
  · exact h uri' doc hdoc

theorem Current.keep (h : w.Current) (uri : String) (doc : Document) :
    (w.setDocument uri (doc.keep (.parse doc.dialect doc.source))).Current :=
  h.setDocument doc.current_keep uri

/-! ## The current index -/

theorem currentIndex_of_not_open {uri : String} (h : w.document? uri = none) :
    w.currentIndex uri = (w, none) := by
  rw [currentIndex, h]

/-- The index of an open document is that of its text. If it was not there, it is kept. -/
theorem Current.currentIndex (h : w.Current) {uri : String} {doc : Document}
    (hdoc : w.document? uri = some doc) :
    (w.currentIndex uri).2 = some (.parse doc.dialect doc.source) ∧
      ((w.currentIndex uri).1 = w ∨
        (w.currentIndex uri).1 =
          w.setDocument uri (doc.keep (.parse doc.dialect doc.source))) := by
  rw [Workspace.currentIndex, hdoc]
  dsimp only
  cases hfresh : doc.freshIndex? with
  | none => exact ⟨rfl, .inr rfl⟩
  | some ix =>
    obtain rfl := (h uri doc hdoc).eq_parse ix hfresh
    exact ⟨rfl, .inl rfl⟩

end Workspace

end Asm6502
