import Asm6502.Proofs.DocumentStore
import Asm6502.Proofs.FaultFree
import Asm6502.Proofs.OpenDocuments
import Asm6502.Server.Handle

/-!
# The server follows the store

The server keeps indices beside the texts that are open, and the generations that these are of. None
of this shows: whatever messages come in, the reactions are those that the store demands.

## Main definitions

- `Workspace.Refines`: a workspace that shows the texts of a store.
- `Reaction.Follows`: a reaction as the store demands it.

## Main statements

- `Server.ensures_dispatch`, `Server.ensures_receive`: the reaction to one message.
- `Server.ensures_run`: the reactions to the messages of a connection.
-/

namespace Asm6502

open Checked (Ensures Succeeds ensures_pure succeeds_pure)

/-- What an open document shows. -/
def Document.held (doc : Document) : Held :=
  ⟨doc.source, doc.version, doc.dialect⟩

namespace Workspace

variable {w : Workspace} {store : Store}

/-- The workspace has the documents of the store, each with an index of its text or none. -/
structure Refines (w : Workspace) (store : Store) : Prop where
  settings : w.settings = store.settings
  preference : w.override? = store.preference?
  held : ∀ uri, (w.document? uri).map Document.held = store.held uri
  current : w.Current

namespace Refines

theorem initial (settings : Settings) : Refines { settings } { settings } :=
  ⟨rfl, rfl, fun _ => rfl, current_of_no_documents settings⟩

theorem dialectFor (h : w.Refines store) (uri : String) :
    w.dialectFor uri = store.dialectFor uri := by
  rw [Workspace.dialectFor, h.preference, h.settings, Store.dialectFor]

theorem openDocument (h : w.Refines store) (uri : String) (version : Int) (source : Bytes) :
    (w.openDocument uri version source).Refines (store.apply (.opened uri version source)) where
  settings := h.settings
  preference := h.preference
  held uri' := by
    rw [document?_openDocument, Store.held_apply_opened, h.dialectFor, ← h.held]
    split <;> rfl
  current := h.current.openDocument uri version source

theorem changeDocument (h : w.Refines store) (uri : String) (version : Int) (source : Bytes) :
    (w.changeDocument uri version source).Refines (store.apply (.changed uri version source)) where
  settings := by
    unfold Workspace.changeDocument
    split <;> exact h.settings
  preference := by
    unfold Workspace.changeDocument
    split <;> exact h.preference
  held uri' := by
    rw [document?_changeDocument, Store.held_apply_changed, ← h.held, ← h.held]
    split
    · rw [Option.map_map, Option.map_map]
      rfl
    · rfl
  current := h.current.changeDocument uri version source

theorem closeDocument (h : w.Refines store) (uri : String) :
    (w.closeDocument uri).Refines (store.apply (.closed uri)) where
  settings := h.settings
  preference := h.preference
  held uri' := by
    rw [document?_closeDocument, Store.held_apply_closed, ← h.held]
    split <;> rfl
  current := h.current.closeDocument uri

theorem prefer (h : w.Refines store) (d : Dialect) :
    Refines { w with override? := some d } (store.apply (.preferred d)) where
  settings := h.settings
  preference := rfl
  held := h.held
  current := h.current

/-- Keeping an index does not show. -/
theorem keep (h : w.Refines store) {uri : String} {doc : Document}
    (hdoc : w.document? uri = some doc) :
    (w.setDocument uri (doc.keep (.parse doc.dialect doc.source))).Refines store where
  settings := h.settings
  preference := h.preference
  held uri' := by
    rw [document?_setDocument, ← h.held]
    split
    · rename_i heq
      rw [heq, hdoc]
      rfl
    · rfl
  current := h.current.keep uri doc

theorem currentIndex (h : w.Refines store) (uri : String) :
    (w.currentIndex uri).1.Refines store ∧
      (w.currentIndex uri).2 = (store.held uri).map Held.index := by
  rw [← h.held]
  cases hdoc : w.document? uri with
  | none =>
    rw [currentIndex_of_not_open hdoc]
    exact ⟨h, rfl⟩
  | some doc =>
    obtain ⟨hindex, hw⟩ := h.current.currentIndex hdoc
    refine ⟨?_, hindex⟩
    rcases hw with hw | hw
    · rw [hw]
      exact h
    · rw [hw]
      exact h.keep hdoc

end Refines

end Workspace

namespace Reaction

def publications (reaction : Reaction) : List Publication :=
  reaction.sent.filterMap Outgoing.publication?

/-- The reaction is what the store demands. The workspace shows the store after the message, what is
published is what the message gives rise to, and a question is answered from the store. -/
structure Follows (reaction : Reaction) (store : Store) (m : Message) : Prop where
  refines : reaction.workspace.Refines (store.receive m)
  publications : reaction.publications = (m.event?.bind store.publication?).toList
  answers : ∀ r uri q, m = .request r → r.query? = some (uri, q) → ∃ a,
    store.answer uri q = .ok a ∧ reaction.sent = [.result (r.id?.getD (.number 0)) a]
  closes : reaction.closes = m.closes

variable {reaction : Reaction} {store : Store} {m : Message}

theorem Follows.logged (h : reaction.Follows store m) (line : String) :
    (reaction.logged line).Follows store m :=
  ⟨h.refines, h.publications, h.answers, h.closes⟩

/-- A request that asks nothing. -/
theorem Follows.of_not_asking {r : Request} {e? : Option Event} (he : r.event? = e?)
    (hq : r.query? = none) (hw : reaction.workspace.Refines (e?.elim store store.apply))
    (hp : reaction.publications = (e?.bind store.publication?).toList)
    (hc : reaction.closes = Message.closes (.request r)) :
    reaction.Follows store (.request r) where
  refines := by simpa only [Store.receive, Message.event?, he] using hw
  publications := by simpa only [Message.event?, he] using hp
  answers r' uri q hr hq' := by
    obtain rfl : r = r' := Message.request.inj hr
    simp [hq] at hq'
  closes := hc

end Reaction

theorem DocumentQuery.succeeds_answer (q : DocumentQuery) (uri : String) (held : Held) :
    Succeeds (q.answer uri held.index) := by
  have sound : held.index.Sound := SymbolIndex.sound_parse held.dialect held.source
  cases q with
  | diagnostics => exact succeeds_pure _
  | hover p => exact (sound.hoverAt p).bind fun _ _ => succeeds_pure _
  | definition p => exact (sound.definitionAt uri p).bind fun _ _ => succeeds_pure _
  | references p withDeclarations =>
    exact (sound.referencesAt uri p withDeclarations).bind fun _ _ => succeeds_pure _
  | outline => exact sound.outline.bind fun _ _ => succeeds_pure _
  | completion p => exact (sound.completeAt p).bind fun _ _ => succeeds_pure _
  | highlights => exact sound.highlights.bind fun _ _ => succeeds_pure _

namespace Server

variable {w : Workspace} {store : Store} {r : Request}

/-! ## Questions -/

theorem ensures_query (h : w.Refines store) {uri : String} {q : DocumentQuery}
    (hq : r.query? = some (uri, q)) (he : r.event? = none)
    (hc : Message.closes (.request r) = false) :
    Ensures (query w r uri q.absent (q.answer uri)) (·.Follows store (.request r)) := by
  obtain ⟨refines, hindex⟩ := h.currentIndex uri
  have follows {w' : Workspace} (hw' : w'.Refines store) {a : Answer}
      (ha : store.answer uri q = .ok a) : (reply w' r a).Follows store (.request r) := by
    refine ⟨by simpa [Store.receive, Message.event?, he, reply] using hw', ?_, ?_, hc.symm⟩
    · simp [Message.event?, he, Reaction.publications, reply, Outgoing.publication?]
    intro r' uri' q' hr hq'
    obtain rfl : r = r' := Message.request.inj hr
    obtain ⟨rfl, rfl⟩ : uri = uri' ∧ q = q' := by simpa [hq] using hq'
    exact ⟨a, ha, rfl⟩
  unfold query
  split
  · rename_i w' hcurrent
    rw [hcurrent] at refines hindex
    have hnone : store.held uri = none := by simpa using hindex.symm
    exact ensures_pure (follows refines (by simp [Store.answer, hnone]; rfl))
  · rename_i w' ix hcurrent
    rw [hcurrent] at refines hindex
    obtain ⟨held, hheld, rfl⟩ := Option.map_eq_some_iff.1 hindex.symm
    obtain ⟨a, ha, -⟩ := q.succeeds_answer uri held
    rw [ha]
    exact ensures_pure (follows refines (by simp [Store.answer, hheld, ha]))

/-! ## Events -/

theorem reparse_of_not_open {uri : String} (h : w.document? uri = none) :
    reparse w uri = { workspace := w } := by
  simp [reparse, Workspace.task?, h]

/-- The new text of an open document is indexed, and the remarks on it are published. -/
theorem exists_reparse_eq {uri : String} {doc : Document} (h : w.document? uri = some doc) :
    ∃ logs, reparse w uri =
      { workspace := w.setDocument uri (doc.keep doc.held.index)
        sent := [.publication
          { uri, version := doc.version, diagnostics := doc.held.index.diagnostics }]
        logs } := by
  refine ⟨(reparse w uri).logs, ?_⟩
  simp only [reparse, Workspace.task?, h, Option.map_some, Workspace.finish, Workspace.store?,
    if_true]
  rfl

theorem follows_reparse {e : Event} {uri : String} {doc : Document} (he : r.event? = some e)
    (hq : r.query? = none) (hc : Message.closes (.request r) = false)
    (hw : w.Refines (store.apply e)) (hdoc : w.document? uri = some doc)
    (hp : store.publication? e =
      some { uri, version := doc.version, diagnostics := doc.held.index.diagnostics }) :
    (reparse w uri).Follows store (.request r) := by
  obtain ⟨logs, heq⟩ := exists_reparse_eq hdoc
  rw [heq]
  refine .of_not_asking he hq (hw.keep hdoc) ?_ hc.symm
  simp [Reaction.publications, Outgoing.publication?, hp]

theorem follows_openDocument (h : w.Refines store) {uri : String} {version : Int} {source : Bytes}
    (he : r.event? = some (.opened uri version source)) (hq : r.query? = none)
    (hc : Message.closes (.request r) = false) :
    (reparse (w.openDocument uri version source) uri).Follows store (.request r) := by
  refine follows_reparse he hq hc (h.openDocument uri version source)
    (by rw [Workspace.document?_openDocument, if_pos rfl]) ?_
  simp [Store.publication?, Document.held, Held.index, h.dialectFor]

theorem follows_changeDocument (h : w.Refines store) {uri : String} {version : Int} {source : Bytes}
    (he : r.event? = some (.changed uri version source)) (hq : r.query? = none)
    (hc : Message.closes (.request r) = false) :
    (reparse (w.changeDocument uri version source) uri).Follows store (.request r) := by
  have hw := h.changeDocument uri version source
  have hchanged := w.document?_changeDocument uri version source uri
  rw [if_pos rfl] at hchanged
  cases hdoc : w.document? uri with
  | none =>
    -- nothing is open here, so nothing changes and nothing is published
    rw [hdoc] at hchanged
    rw [reparse_of_not_open hchanged]
    refine .of_not_asking he hq hw ?_ hc.symm
    simp [Reaction.publications, Store.publication?, ← h.held, hdoc]
  | some doc =>
    rw [hdoc] at hchanged
    refine follows_reparse he hq hc hw hchanged ?_
    simp [Store.publication?, ← h.held, hdoc, Document.held, Document.change, Held.index]

/-! ## Requests -/

theorem ensures_withParams {α : Type} {decoder : Json.Decoder α} {zero : α}
    {next : α → Checked Reaction} {P : Reaction → Prop}
    (hok : ∀ p, (r.decode decoder zero).toOption = some p → Ensures (next p) P)
    (herror : (r.decode decoder zero).toOption = none → ∀ e line, P ((refuse w r e).logged line)) :
    Ensures (withParams w r decoder zero next) P := by
  unfold withParams
  split
  · rename_i p hp
    exact hok p (by rw [hp]; rfl)
  · rename_i e he
    exact ensures_pure (herror (by rw [he]; rfl) e _)

theorem publications_refuse (w : Workspace) (r : Request) (e : RequestError) :
    (refuse w r e).publications = [] := by
  cases h : r.id? <;> simp [refuse, Reaction.publications, Outgoing.publication?, h]

theorem follows_refuse (h : w.Refines store) (he : r.event? = none) (hq : r.query? = none)
    (hc : Message.closes (.request r) = false) (e : RequestError) :
    (refuse w r e).Follows store (.request r) :=
  .of_not_asking he hq h (publications_refuse w r e) hc.symm

/-- A request that asks something. -/
theorem ensures_asking {α : Type} {decoder : Json.Decoder α} {zero : α} (h : w.Refines store)
    (ask : α → String × DocumentQuery) (he : r.event? = none)
    (hq : r.query? = (r.decode decoder zero).toOption.map ask)
    (hc : Message.closes (.request r) = false) :
    Ensures (withParams w r decoder zero fun p =>
      query w r (ask p).1 (ask p).2.absent ((ask p).2.answer (ask p).1))
      (·.Follows store (.request r)) := by
  refine ensures_withParams (fun p hp => ?_) fun hp e line => ?_
  · exact ensures_query h (by rw [hq, hp]; rfl) he hc
  · exact (follows_refuse h he (by rw [hq, hp]; rfl) hc e).logged line

/-- A request that may say something. -/
theorem ensures_saying {α : Type} {decoder : Json.Decoder α} {zero : α} {next : α → Reaction}
    (h : w.Refines store) (say : α → Option Event) (hq : r.query? = none)
    (he : r.event? = (r.decode decoder zero).toOption.bind say)
    (hc : Message.closes (.request r) = false)
    (follows : ∀ p, r.event? = say p → (next p).Follows store (.request r)) :
    Ensures (withParams w r decoder zero fun p => pure (next p))
      (·.Follows store (.request r)) := by
  refine ensures_withParams (fun p hp => ensures_pure ?_) fun hp e line => ?_
  · exact follows p (by rw [he, hp]; rfl)
  · exact (follows_refuse h (by rw [he, hp]; rfl) hq hc e).logged line

theorem follows_reply_capabilities (h : w.Refines store) (he : r.event? = none)
    (hq : r.query? = none) (hc : Message.closes (.request r) = false) :
    (reply w r .capabilities).Follows store (.request r) :=
  .of_not_asking he hq h rfl hc.symm

theorem follows_connect (h : w.Refines store) (p : ConnectParams)
    (he : r.event? = (p.dialect?.filter (· ≠ "")).bind fun name =>
      (Dialect.ofName? (Text.ofString name)).map .preferred)
    (hq : r.query? = none) (hc : Message.closes (.request r) = false) :
    (connect w r p).Follows store (.request r) := by
  unfold connect
  split
  · rename_i hname
    exact follows_reply_capabilities h (by simp [he, hname]) hq hc
  · rename_i name hname
    split
    · rename_i hempty
      exact follows_reply_capabilities h (by simp [he, hname, hempty]) hq hc
    · rename_i hempty
      split
      · rename_i d hd
        have he : r.event? = some (.preferred d) := by simp [he, hname, Option.filter, hempty, hd]
        exact .of_not_asking he hq (h.prefer d) rfl hc.symm
      · rename_i hd
        have he : r.event? = none := by simp [he, hname, Option.filter, hempty, hd]
        exact (follows_reply_capabilities h he hq hc).logged _

theorem follows_change (h : w.Refines store) (p : ChangeParams)
    (he : r.event? = p.changes.items.getLast?.map fun text =>
      .changed p.uri p.version (Text.ofString text).bytes)
    (hq : r.query? = none) (hc : Message.closes (.request r) = false) :
    (change w p).Follows store (.request r) := by
  unfold change
  split
  · rename_i hlast
    have he : r.event? = none := by rw [he, hlast]; rfl
    exact .of_not_asking he hq h rfl hc.symm
  · rename_i text hlast
    exact follows_changeDocument h (by rw [he, hlast]; rfl) hq hc

theorem ensures_dispatch (h : w.Refines store) {m : Method}
    (hm : Method.ofName? r.method = some m) :
    Ensures (dispatch w r m) (·.Follows store (.request r)) := by
  -- with the method at hand, `hc`, `he` and `hq` compute in each of the cases
  have hc : Message.closes (.request r) = decide (m = .exit) := by simp [Message.closes, hm]
  have he := Request.event?.eq_def r
  have hq := Request.query?.eq_def r
  rw [hm] at he hq
  cases m with
  | connect =>
    exact ensures_saying h (fun p => _) hq he hc fun p hp => follows_connect h p hp hq hc
  | connected => exact ensures_pure (.of_not_asking he hq h rfl hc.symm)
  | didOpen =>
    exact ensures_saying h _ hq (he.trans Option.map_eq_bind) hc fun p hp =>
      follows_openDocument h hp hq hc
  | didChange =>
    exact ensures_saying h (fun p => _) hq he hc fun p hp => follows_change h p hp hq hc
  | didClose =>
    exact ensures_saying h _ hq (he.trans Option.map_eq_bind) hc fun p hp =>
      .of_not_asking hp hq (h.closeDocument p.uri) rfl hc.symm
  | diagnostic =>
    exact ensures_asking h (fun p : DocumentParams => (p.uri, .diagnostics)) he hq hc
  | hover =>
    exact ensures_asking h (fun p : PositionParams => (p.uri, .hover p.position)) he hq hc
  | definition =>
    exact ensures_asking h (fun p : PositionParams => (p.uri, .definition p.position)) he hq hc
  | references =>
    exact ensures_asking h
      (fun p : ReferenceParams => (p.uri, .references p.position p.withDeclarations)) he hq hc
  | documentSymbol =>
    exact ensures_asking h (fun p : DocumentParams => (p.uri, .outline)) he hq hc
  | completion =>
    exact ensures_asking h (fun p : PositionParams => (p.uri, .completion p.position)) he hq hc
  | semanticTokens =>
    exact ensures_asking h (fun p : DocumentParams => (p.uri, .highlights)) he hq hc
  | shutdown => exact ensures_pure (.of_not_asking he hq h rfl hc.symm)
  | exit => exact ensures_pure (.of_not_asking he hq h rfl hc.symm)

/-! ## Messages -/

theorem ensures_handle (h : w.Refines store) (r : Request) :
    Ensures (handle w r) (·.Follows store (.request r)) := by
  unfold handle
  cases hm : Method.ofName? r.method with
  | some m =>
    refine (ensures_dispatch h hm).bind fun reaction follows => ?_
    exact ensures_pure (follows.logged _)
  | none =>
    refine ensures_pure ((follows_refuse h ?_ ?_ ?_ _).logged _)
    · simp [Request.event?, hm]
    · simp [Request.query?, hm]
    · simp [Message.closes, hm]

theorem ensures_receive (h : w.Refines store) (m : Message) :
    Ensures (receive w m) (·.Follows store m) := by
  cases m with
  | request r => exact ensures_handle h r
  | response => exact ensures_pure ⟨h, rfl, by simp, rfl⟩
  | malformed => exact ensures_pure ⟨h, rfl, by simp, rfl⟩

/-- Each message is met with the reaction that the store demands, until one ends the connection. -/
theorem ensures_run (h : w.Refines store) (ms : List Message) :
    Ensures (run w ms) fun rs =>
      (∀ front m back, ms = front ++ m :: back → (∀ m' ∈ front, m'.closes = false) →
        ∃ reaction : Reaction, rs[front.length]? = some reaction ∧
          reaction.Follows (store.after front) m) ∧
      ∀ front m back, ms = front ++ m :: back → m.closes = true → rs.length ≤ front.length + 1 := by
  induction ms generalizing w store with
  | nil => exact ensures_pure (by simp)
  | cons m ms ih =>
    refine (ensures_receive h m).bind fun reaction follows => ?_
    rw [follows.closes]
    -- messages behind one that closes the connection are not looked at
    split
    · rename_i hcloses
      refine ensures_pure ⟨fun front m' back heq open' => ?_, by simp⟩
      cases front with
      | nil =>
        obtain ⟨rfl, rfl⟩ : m = m' ∧ ms = back := by simpa using heq
        exact ⟨reaction, rfl, follows⟩
      | cons m'' front =>
        obtain ⟨rfl, -⟩ : m = m'' ∧ ms = front ++ m' :: back := by simpa using heq
        simp [hcloses] at open'
    · rename_i hcloses
      refine (ih follows.refines).bind fun rs hrs => ensures_pure ⟨?_, ?_⟩
      · intro front m' back heq open'
        cases front with
        | nil =>
          obtain ⟨rfl, rfl⟩ : m = m' ∧ ms = back := by simpa using heq
          exact ⟨reaction, rfl, follows⟩
        | cons m'' front =>
          obtain ⟨rfl, hms⟩ : m = m'' ∧ ms = front ++ m' :: back := by simpa using heq
          simpa using hrs.1 front m' back hms fun m' hm' => open' m' (List.mem_cons_of_mem _ hm')
      · intro front m' back heq hcloses'
        cases front with
        | nil =>
          obtain ⟨rfl, -⟩ : m = m' ∧ ms = back := by simpa using heq
          exact absurd hcloses' hcloses
        | cons m'' front =>
          obtain ⟨rfl, hms⟩ : m = m'' ∧ ms = front ++ m' :: back := by simpa using heq
          simpa using hrs.2 front m' back hms hcloses'

/-- A connection never fails. Up to the message that ends it, each message is met with the reaction
that the store after the earlier ones demands, and that store holds the texts that came last. -/
theorem run_follows_store (settings : Settings) (ms : List Message) :
    (∃ rs : List Reaction, run { settings } ms = .ok rs ∧
      (∀ front m back, ms = front ++ m :: back → (∀ m' ∈ front, m'.closes = false) →
        ∃ reaction : Reaction, rs[front.length]? = some reaction ∧
          reaction.Follows (Store.after { settings } front) m) ∧
      ∀ front m back, ms = front ++ m :: back → m.closes = true →
        rs.length ≤ front.length + 1) ∧
    ∀ front uri held, (Store.after { settings } front).held uri = some held ↔
      Holds settings (front.filterMap Message.event?) uri held :=
  ⟨ensures_run (.initial settings) ms, fun _ _ _ => Store.held_after_iff⟩

/-- A document is opened and changed to the last of two texts. A question is asked about it, and one
about a document that is not open. -/
theorem run_follows_store_change :
    let document (uri : String) (more : List (String × Json)) : String × Json :=
      ("textDocument", .object (("uri", .string uri) :: more))
    let text (s : String) : String × Json := ("text", .string s)
    let opening : Message := .request
      { method := "textDocument/didOpen"
        params? := some (.object [document "u" [("version", .nat 1), text "a"]]) }
    let change : Message := .request
      { method := "textDocument/didChange"
        params? := some (.object [document "u" [("version", .nat 2)],
          ("contentChanges", .array [.object [text "b"], .object [text "'c"]])]) }
    let question (id : Nat) (uri : String) : Message := .request
      { id? := some (.number id), method := "textDocument/diagnostic"
        params? := some (.object [document uri []]) }
    let remarks : List Diagnostic := (SymbolIndex.parse .acme [0x27, 0x63]).diagnostics
    ∃ rs : List Reaction,
      run { settings := {} } [opening, change, question 7 "u", question 8 "v"] = .ok rs ∧
      (∃ reaction : Reaction, rs[1]? = some reaction ∧
        reaction.publications = [{ uri := "u", version := 2, diagnostics := remarks }]) ∧
      (∃ reaction : Reaction, rs[2]? = some reaction ∧
        reaction.sent = [.result (.number 7) (.diagnostics remarks)]) ∧
      ∃ reaction : Reaction, rs[3]? = some reaction ∧
        reaction.sent = [.result (.number 8) (.diagnostics [])] := by
  intro document text opening change question remarks
  have hopening : opening.event? = some (.opened "u" 1 [0x61]) := by cbv
  have hchange : change.event? = some (.changed "u" 2 [0x27, 0x63]) := by cbv
  have hnone : (question 7 "u").event? = none := by cbv
  have goesOn : opening.closes = false ∧ change.closes = false ∧
      (question 7 "u").closes = false := by
    refine ⟨?_, ?_, ?_⟩ <;> cbv
  have hdialect : ({ settings := {} } : Store).dialectFor "u" = .acme := by cbv
  have opened : (Store.after { settings := {} } [opening]).held "u" =
      some ⟨[0x61], 1, .acme⟩ := by
    simp [Store.receive, hopening, Store.held_apply_opened, hdialect]
  have changed : (Store.after { settings := {} } [opening, change]).held "u" =
      some ⟨[0x27, 0x63], 2, .acme⟩ := by
    simp [Store.receive, hopening, hchange, Store.held_apply_opened, Store.held_apply_changed,
      hdialect]
  have absent : (Store.after { settings := {} } [opening, change, question 7 "u"]).held "v" =
      none := by
    simp [Store.receive, hopening, hchange, hnone, Store.held_apply_opened,
      Store.held_apply_changed]
  obtain ⟨⟨rs, hrun, follows, -⟩, -⟩ :=
    run_follows_store {} [opening, change, question 7 "u", question 8 "v"]
  refine ⟨rs, hrun, ?_, ?_, ?_⟩
  · obtain ⟨reaction, hreaction, hfollows⟩ := follows [opening] change _ rfl (by simp [goesOn])
    refine ⟨reaction, hreaction, ?_⟩
    rw [hfollows.publications, hchange, Option.bind_some, Store.publication?, opened]
    rfl
  · obtain ⟨reaction, hreaction, hfollows⟩ :=
      follows [opening, change] (question 7 "u") _ rfl (by simp [goesOn])
    obtain ⟨a, ha, hsent⟩ := hfollows.answers _ "u" .diagnostics rfl (by cbv)
    rw [Store.answer, changed] at ha
    obtain rfl : .diagnostics remarks = a := Except.ok.inj ha
    exact ⟨reaction, hreaction, hsent⟩
  · obtain ⟨reaction, hreaction, hfollows⟩ :=
      follows [opening, change, question 7 "u"] (question 8 "v") _ rfl (by simp [goesOn])
    obtain ⟨a, ha, hsent⟩ := hfollows.answers _ "v" .diagnostics rfl (by cbv)
    rw [Store.answer, absent] at ha
    obtain rfl : .diagnostics [] = a := Except.ok.inj ha
    exact ⟨reaction, hreaction, hsent⟩

end Server

end Asm6502
