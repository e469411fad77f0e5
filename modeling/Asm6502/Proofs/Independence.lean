import Asm6502.Proofs.Serving

/-!
# Documents do not interfere

All documents of a connection are kept in one workspace. Still, what the server says about a document
depends on the messages about that document alone, and on those about no document at all: leaving
out all messages about other documents changes none of it.

## Main definitions

- `Request.subject?`, `Message.concerns`: which document a message is about.
- `Workspace.only`, `Reaction.only`: what is left if all other documents are forgotten.
- `Server.heard`, `Server.published`: what the server says about a document.

## Main statements

- `Server.receive_only`: a message that concerns a document needs none of the others.
- `Server.spares_receive`: a message about another document leaves the document alone.
- `Server.exists_run_filter_concerns`: the run without the messages about other documents.
-/

namespace Asm6502

open Checked (bind_eq_ok_iff)

/-! ## Subjects -/

/-- The document that a request is about, if its parameters can be read. -/
def Request.subject? (r : Request) : Option String :=
  match Method.ofName? r.method with
  | some .didOpen => (r.decode OpenParams.decoder {}).toOption.map OpenParams.uri
  | some .didChange => (r.decode ChangeParams.decoder {}).toOption.map ChangeParams.uri
  | some .didClose => (r.decode DocumentParams.decoder {}).toOption.map DocumentParams.uri
  | some .diagnostic => (r.decode DocumentParams.decoder {}).toOption.map DocumentParams.uri
  | some .hover => (r.decode PositionParams.decoder {}).toOption.map PositionParams.uri
  | some .definition => (r.decode PositionParams.decoder {}).toOption.map PositionParams.uri
  | some .references => (r.decode ReferenceParams.decoder {}).toOption.map ReferenceParams.uri
  | some .documentSymbol => (r.decode DocumentParams.decoder {}).toOption.map DocumentParams.uri
  | some .completion => (r.decode PositionParams.decoder {}).toOption.map PositionParams.uri
  | some .semanticTokens => (r.decode DocumentParams.decoder {}).toOption.map DocumentParams.uri
  | _ => none

namespace Message

def subject? : Message → Option String
  | request r => r.subject?
  | _ => none

/-- Whether the message is about the document, or about none. -/
def concerns (uri : String) (m : Message) : Bool :=
  m.subject?.all (· == uri)

theorem concerns_eq_false_iff {uri : String} {m : Message} :
    m.concerns uri = false ↔ ∃ uri', m.subject? = some uri' ∧ uri' ≠ uri := by
  unfold concerns
  cases m.subject? <;> simp

end Message

/-! ## One document -/

namespace Table

variable {κ ν : Type} [DecidableEq κ]

/-- The entries of a key. -/
def only (t : Table κ ν) (k : κ) : Table κ ν :=
  t.filter fun entry => entry.1 = k

theorem find?_only (t : Table κ ν) (k : κ) : find? (only t k) k = find? t k := by
  induction t with
  | nil => rfl
  | cons e t ih =>
    by_cases h : e.1 = k
    · simp [only, find?, h]
    · simpa [only, find?, h, Ne.symm h] using ih

theorem only_insert (t : Table κ ν) (k : κ) (v : ν) :
    only (insert t k v) k = insert (only t k) k v := by
  fun_induction insert t k v with
  | case1 k v => simp [only, insert]
  | case2 v' t k v => simp [only, insert]
  | case3 k' v' t k v hne ih => simpa [only, Ne.symm hne] using ih

theorem only_insert_of_ne {k k' : κ} (h : k' ≠ k) (t : Table κ ν) (v : ν) :
    only (insert t k' v) k = only t k := by
  fun_induction insert t k' v with
  | case1 k' v => simp [only, h]
  | case2 v' t k' v => simp [only, h]
  | case3 k'' v' t k' v hne ih =>
    have htail := ih h
    simp only [only, List.filter_cons] at htail ⊢
    rw [htail]

theorem only_erase (t : Table κ ν) (k : κ) : only (erase t k) k = erase (only t k) k := by
  simp only [only, erase, List.filter_filter, Bool.and_comm]

theorem only_erase_of_ne {k k' : κ} (h : k' ≠ k) (t : Table κ ν) :
    only (erase t k') k = only t k := by
  rw [only, erase, List.filter_filter]
  refine List.filter_congr fun e _ => ?_
  grind

end Table

namespace Workspace

variable {w : Workspace} {uri uri' : String}

/-- The workspace as if no other document were open. -/
def only (w : Workspace) (uri : String) : Workspace :=
  { w with documents := w.documents.only uri }

@[simp] theorem document?_only (w : Workspace) (uri : String) :
    (w.only uri).document? uri = w.document? uri :=
  Table.find?_only w.documents uri

@[simp] theorem setDocument_only (w : Workspace) (uri : String) (doc : Document) :
    (w.only uri).setDocument uri doc = (w.setDocument uri doc).only uri := by
  simp [only, setDocument, Table.only_insert]

theorem only_setDocument_of_ne (h : uri' ≠ uri) (w : Workspace) (doc : Document) :
    (w.setDocument uri' doc).only uri = w.only uri := by
  simp [only, setDocument, Table.only_insert_of_ne h]

@[simp] theorem openDocument_only (w : Workspace) (uri : String) (version : Int) (source : Bytes) :
    (w.only uri).openDocument uri version source = (w.openDocument uri version source).only uri :=
  setDocument_only w uri _

@[simp] theorem changeDocument_only (w : Workspace) (uri : String) (version : Int)
    (source : Bytes) :
    (w.only uri).changeDocument uri version source =
      (w.changeDocument uri version source).only uri := by
  unfold changeDocument
  rw [document?_only]
  cases w.document? uri with
  | none => rfl
  | some doc => exact setDocument_only w uri _

theorem only_changeDocument_of_ne (h : uri' ≠ uri) (w : Workspace) (version : Int)
    (source : Bytes) : (w.changeDocument uri' version source).only uri = w.only uri := by
  unfold changeDocument
  cases w.document? uri' with
  | none => rfl
  | some doc => exact only_setDocument_of_ne h w _

@[simp] theorem closeDocument_only (w : Workspace) (uri : String) :
    (w.only uri).closeDocument uri = (w.closeDocument uri).only uri := by
  simp [only, closeDocument, Table.only_erase]

theorem only_closeDocument_of_ne (h : uri' ≠ uri) (w : Workspace) :
    (w.closeDocument uri').only uri = w.only uri := by
  simp [only, closeDocument, Table.only_erase_of_ne h]

theorem currentIndex_only (w : Workspace) (uri : String) :
    (w.only uri).currentIndex uri = ((w.currentIndex uri).1.only uri, (w.currentIndex uri).2) := by
  unfold currentIndex
  rw [document?_only]
  cases w.document? uri with
  | none => rfl
  | some doc =>
    dsimp only
    cases doc.freshIndex? with
    | none => simp
    | some ix => rfl

theorem only_currentIndex_of_ne (h : uri' ≠ uri) (w : Workspace) :
    (w.currentIndex uri').1.only uri = w.only uri := by
  unfold currentIndex
  cases w.document? uri' with
  | none => rfl
  | some doc =>
    dsimp only
    cases doc.freshIndex? with
    | none => exact only_setDocument_of_ne h w _
    | some ix => rfl

end Workspace

namespace Reaction

/-- The reaction as if no other document were open. -/
def only (uri : String) (reaction : Reaction) : Reaction :=
  { reaction with workspace := reaction.workspace.only uri }

/-- The document is what it was in the workspace `w`, and nothing is published about it. -/
structure Spares (uri : String) (w : Workspace) (reaction : Reaction) : Prop where
  workspace : reaction.workspace.only uri = w.only uri
  publications : ∀ p ∈ reaction.publications, p.uri ≠ uri

theorem Spares.logged {uri : String} {w : Workspace} {reaction : Reaction}
    (h : reaction.Spares uri w) (line : String) : (reaction.logged line).Spares uri w :=
  ⟨h.workspace, h.publications⟩

end Reaction

namespace Server

variable {w : Workspace} {r : Request} {uri uri' : String}

/-! ## Messages that concern the document -/

theorem query_only (w : Workspace) (r : Request) (uri : String) (absent : Answer)
    (answer : SymbolIndex → Checked Answer) :
    query (w.only uri) r uri absent answer = Reaction.only uri <$> query w r uri absent answer := by
  unfold query
  rw [Workspace.currentIndex_only]
  obtain ⟨w', ix?⟩ := w.currentIndex uri
  cases ix? with
  | none => rfl
  | some ix =>
    dsimp only
    cases answer ix <;> rfl

theorem reparse_only (w : Workspace) (uri : String) :
    reparse (w.only uri) uri = (reparse w uri).only uri := by
  cases hdoc : w.document? uri with
  | none =>
    rw [reparse_of_not_open hdoc, reparse_of_not_open (by rw [Workspace.document?_only, hdoc])]
    rfl
  | some doc =>
    simp only [reparse, Workspace.task?, Workspace.document?_only, hdoc, Option.map_some,
      Workspace.finish, Workspace.store?, if_true, Workspace.setDocument_only]
    rfl

theorem connect_only (w : Workspace) (r : Request) (p : ConnectParams) (uri : String) :
    connect (w.only uri) r p = (connect w r p).only uri := by
  unfold connect
  split
  · rfl
  · split
    · rfl
    · split <;> rfl

theorem change_only (w : Workspace) (p : ChangeParams) :
    change (w.only p.uri) p = (change w p).only p.uri := by
  unfold change
  split
  · rfl
  · rw [Workspace.changeDocument_only, reparse_only]

theorem withParams_only {α : Type} {decoder : Json.Decoder α} {zero : α}
    {next next' : α → Checked Reaction}
    (h : ∀ p, (r.decode decoder zero).toOption = some p → next' p = Reaction.only uri <$> next p) :
    withParams (w.only uri) r decoder zero next' =
      Reaction.only uri <$> withParams w r decoder zero next := by
  unfold withParams
  split
  · rename_i p hp
    exact h p (by rw [hp]; rfl)
  · rfl

/-- A request about the document. -/
theorem withParams_only_of_concerns {α : Type} {decoder : Json.Decoder α} {zero : α}
    {subject : α → String} {next next' : α → Checked Reaction}
    (hsubject : r.subject? = (r.decode decoder zero).toOption.map subject)
    (hconcerns : (Message.request r).concerns uri = true)
    (h : ∀ p, subject p = uri → next' p = Reaction.only uri <$> next p) :
    withParams (w.only uri) r decoder zero next' =
      Reaction.only uri <$> withParams w r decoder zero next := by
  refine withParams_only fun p hp => h p ?_
  simpa [Message.concerns, Message.subject?, hsubject, hp] using hconcerns

/-- A request that asks something about the document. -/
theorem asking_only {α : Type} {decoder : Json.Decoder α} {zero : α} {subject : α → String}
    {absent : α → Answer} {answer : α → SymbolIndex → Checked Answer}
    (hsubject : r.subject? = (r.decode decoder zero).toOption.map subject)
    (hconcerns : (Message.request r).concerns uri = true) :
    withParams (w.only uri) r decoder zero
        (fun p => query (w.only uri) r (subject p) (absent p) (answer p)) =
      Reaction.only uri <$> withParams w r decoder zero
        fun p => query w r (subject p) (absent p) (answer p) := by
  refine withParams_only_of_concerns hsubject hconcerns ?_
  rintro p rfl
  exact query_only w r (subject p) (absent p) (answer p)

theorem dispatch_only {m : Method} (hm : Method.ofName? r.method = some m)
    (h : (Message.request r).concerns uri = true) :
    dispatch (w.only uri) r m = Reaction.only uri <$> dispatch w r m := by
  have hs := Request.subject?.eq_def r
  rw [hm] at hs
  cases m with
  | connect => exact withParams_only fun p _ => congrArg Except.ok (connect_only w r p uri)
  | didOpen =>
    refine withParams_only_of_concerns hs h ?_
    rintro p rfl
    rw [Workspace.openDocument_only, reparse_only]
    rfl
  | didChange =>
    refine withParams_only_of_concerns hs h ?_
    rintro p rfl
    exact congrArg Except.ok (change_only w p)
  | didClose =>
    refine withParams_only_of_concerns hs h ?_
    rintro p rfl
    rw [Workspace.closeDocument_only]
    rfl
  | diagnostic => exact asking_only hs h
  | hover => exact asking_only hs h
  | definition => exact asking_only hs h
  | references => exact asking_only hs h
  | documentSymbol => exact asking_only hs h
  | completion => exact asking_only hs h
  | semanticTokens => exact asking_only hs h
  | connected => rfl
  | shutdown => rfl
  | exit => rfl

/-- A message that concerns a document is met in the same way if no other document is open. -/
theorem receive_only {m : Message} (h : m.concerns uri = true) :
    receive (w.only uri) m = Reaction.only uri <$> receive w m := by
  cases m with
  | request r =>
    simp only [receive, handle]
    cases hm : Method.ofName? r.method with
    | none => rfl
    | some method =>
      dsimp only
      rw [dispatch_only hm h]
      cases dispatch w r method <;> rfl
  | response => rfl
  | malformed => rfl

/-! ## Messages about other documents -/

theorem spares_reply {w' : Workspace} (hw : w'.only uri = w.only uri) (r : Request) (a : Answer) :
    (reply w' r a).Spares uri w :=
  ⟨hw, by simp [Reaction.publications, reply, Outgoing.publication?]⟩

theorem spares_query {absent : Answer} {answer : SymbolIndex → Checked Answer} {reaction : Reaction}
    (hne : uri' ≠ uri) (h : query w r uri' absent answer = .ok reaction) :
    reaction.Spares uri w := by
  have hw := Workspace.only_currentIndex_of_ne hne w
  unfold query at h
  generalize w.currentIndex uri' = current at hw h
  obtain ⟨w', ix?⟩ := current
  cases ix? with
  | none =>
    obtain rfl := Except.ok.inj h
    exact spares_reply hw r absent
  | some ix =>
    obtain ⟨a, -, h⟩ := bind_eq_ok_iff.1 h
    obtain rfl := Except.ok.inj h
    exact spares_reply hw r a

theorem spares_reparse {w' : Workspace} (hne : uri' ≠ uri) (hw : w'.only uri = w.only uri) :
    (reparse w' uri').Spares uri w := by
  cases hdoc : w'.document? uri' with
  | none =>
    rw [reparse_of_not_open hdoc]
    exact ⟨hw, by simp [Reaction.publications]⟩
  | some doc =>
    obtain ⟨logs, heq⟩ := exists_reparse_eq hdoc
    rw [heq]
    refine ⟨(Workspace.only_setDocument_of_ne hne w' _).trans hw, ?_⟩
    simp [Reaction.publications, Outgoing.publication?, hne]

/-- The parameters of a request about a document can be read. -/
theorem exists_params_of_subject? {α : Type} {decoder : Json.Decoder α} {zero : α}
    {subject : α → String} {next : α → Checked Reaction} {reaction : Reaction}
    (hsubject : r.subject? = (r.decode decoder zero).toOption.map subject)
    (hr : r.subject? = some uri') (h : withParams w r decoder zero next = .ok reaction) :
    ∃ p, subject p = uri' ∧ next p = .ok reaction := by
  rw [hsubject] at hr
  unfold withParams at h
  cases hdecode : r.decode decoder zero with
  | error e =>
    rw [hdecode] at hr
    cases hr
  | ok p =>
    rw [hdecode] at hr h
    exact ⟨p, Option.some.inj hr, h⟩

theorem spares_dispatch {m : Method} {reaction : Reaction}
    (hm : Method.ofName? r.method = some m) (hr : r.subject? = some uri') (hne : uri' ≠ uri)
    (h : dispatch w r m = .ok reaction) : reaction.Spares uri w := by
  have hs := Request.subject?.eq_def r
  rw [hm] at hs
  cases m with
  | didOpen =>
    obtain ⟨p, rfl, h⟩ := exists_params_of_subject? hs hr h
    obtain rfl := Except.ok.inj h
    exact spares_reparse hne (Workspace.only_setDocument_of_ne hne w _)
  | didChange =>
    obtain ⟨p, rfl, h⟩ := exists_params_of_subject? hs hr h
    obtain rfl := Except.ok.inj h
    unfold change
    split
    · exact ⟨rfl, by simp [Reaction.publications]⟩
    · exact spares_reparse hne (Workspace.only_changeDocument_of_ne hne w _ _)
  | didClose =>
    obtain ⟨p, rfl, h⟩ := exists_params_of_subject? hs hr h
    obtain rfl := Except.ok.inj h
    exact ⟨Workspace.only_closeDocument_of_ne hne w, by simp [Reaction.publications]⟩
  | connect | connected | shutdown | exit =>
    rw [hs] at hr
    cases hr
  | _ =>
    obtain ⟨p, rfl, h⟩ := exists_params_of_subject? hs hr h
    exact spares_query hne h

/-- A message about another document leaves the document alone. -/
theorem spares_receive {m : Message} {reaction : Reaction} (hm : m.subject? = some uri')
    (hne : uri' ≠ uri) (h : receive w m = .ok reaction) : reaction.Spares uri w := by
  cases m with
  | request r =>
    cases hmethod : Method.ofName? r.method with
    | none => simp [Message.subject?, Request.subject?, hmethod] at hm
    | some method =>
      simp only [receive, handle, hmethod] at h
      obtain ⟨reaction', hdispatch, h⟩ := bind_eq_ok_iff.1 h
      obtain rfl := Except.ok.inj h
      exact (spares_dispatch hmethod hm hne hdispatch).logged _
  | response => cases hm
  | malformed => cases hm

/-- A message that is about a document does not end the connection. -/
theorem closes_eq_false_of_subject? {m : Message} (h : m.subject? = some uri) :
    m.closes = false := by
  cases m with
  | request r =>
    rw [← Bool.not_eq_true]
    intro hcloses
    have hexit : Method.ofName? r.method = some .exit := by simpa [Message.closes] using hcloses
    simp [Message.subject?, Request.subject?, hexit] at h
  | response => rfl
  | malformed => cases h

/-! ## Connections -/

/-- What is sent on each message that concerns the document. -/
def heard (uri : String) (ms : List Message) (rs : List Reaction) :
    List (Message × List Outgoing) :=
  ((ms.zip rs).filter (·.1.concerns uri)).map fun x => (x.1, x.2.sent)

/-- What is published about the document. -/
def published (uri : String) (rs : List Reaction) : List Publication :=
  (rs.flatMap Reaction.publications).filter (·.uri = uri)

theorem heard_cons (uri : String) (m : Message) (ms : List Message) (reaction : Reaction)
    (rs : List Reaction) :
    heard uri (m :: ms) (reaction :: rs) =
      if m.concerns uri then (m, reaction.sent) :: heard uri ms rs else heard uri ms rs := by
  cases h : m.concerns uri <;> simp [heard, h]

theorem published_cons (uri : String) (reaction : Reaction) (rs : List Reaction) :
    published uri (reaction :: rs) =
      reaction.publications.filter (·.uri = uri) ++ published uri rs := by
  simp [published]

theorem run_cons {m : Message} {reaction : Reaction} (h : receive w m = .ok reaction)
    (ms : List Message) :
    run w (m :: ms) =
      if reaction.closes then .ok [reaction] else (reaction :: ·) <$> run reaction.workspace ms := by
  rw [run, h, Checked.ok_bind]
  cases reaction.closes with
  | true => rfl
  | false => simp

/-- Without the messages about other documents the same is said about the document. -/
theorem exists_run_filter_concerns {store : Store} (h : w.Refines store) (ms : List Message)
    (uri : String) :
    ∃ rs rs', run w ms = .ok rs ∧ run (w.only uri) (ms.filter (·.concerns uri)) = .ok rs' ∧
      heard uri ms rs = heard uri (ms.filter (·.concerns uri)) rs' ∧
      published uri rs = published uri rs' := by
  induction ms generalizing w store with
  | nil => exact ⟨[], [], rfl, rfl, rfl, rfl⟩
  | cons m ms ih =>
    obtain ⟨reaction, hreceive, follows⟩ := ensures_receive h m
    obtain ⟨rs, rs', hrun, hrun', hheard, hpublished⟩ := ih follows.refines
    rw [run_cons hreceive, follows.closes]
    cases hconcerns : m.concerns uri with
    | true =>
      have hreceive' : receive (w.only uri) m = .ok (reaction.only uri) := by
        rw [receive_only hconcerns, hreceive]
        rfl
      have hcloses' : (reaction.only uri).closes = m.closes := follows.closes
      rw [List.filter_cons_of_pos hconcerns, run_cons hreceive', hcloses']
      cases m.closes with
      | true =>
        exact ⟨[reaction], [reaction.only uri], rfl, rfl,
          by simp [hconcerns, heard, Reaction.only], rfl⟩
      | false =>
        refine ⟨reaction :: rs, reaction.only uri :: rs', by simp [hrun],
          by simp [Reaction.only, hrun'], ?_, ?_⟩
        · rw [heard_cons, heard_cons, if_pos hconcerns, if_pos hconcerns, hheard]
          rfl
        · rw [published_cons, published_cons, hpublished]
          rfl
    | false =>
      -- the message is left out, and the other run stays where it is
      obtain ⟨uri', hsubject, hne⟩ := Message.concerns_eq_false_iff.1 hconcerns
      obtain ⟨hspared, hsilent⟩ := spares_receive hsubject hne hreceive
      rw [hspared] at hrun'
      rw [closes_eq_false_of_subject? hsubject, List.filter_cons_of_neg (by simp [hconcerns])]
      refine ⟨reaction :: rs, rs', by simp [hrun], hrun', ?_, ?_⟩
      · rw [heard_cons, if_neg (by simp [hconcerns]), hheard]
      · rw [published_cons, hpublished, List.filter_eq_nil_iff.2 (by simpa using hsilent),
          List.nil_append]

/-- Documents do not interfere. If all messages about other documents are left out, each message
that is left is answered as before, and the same is published about the document. So it is for any
two connections whose messages differ only in those about other documents. -/
theorem documents_do_not_interfere (settings : Settings) (uri : String) :
    (∀ ms, ∃ rs rs', run { settings } ms = .ok rs ∧
      run { settings } (ms.filter (·.concerns uri)) = .ok rs' ∧
      heard uri ms rs = heard uri (ms.filter (·.concerns uri)) rs' ∧
      published uri rs = published uri rs') ∧
    ∀ ms ms', ms.filter (·.concerns uri) = ms'.filter (·.concerns uri) →
      ∃ rs rs', run { settings } ms = .ok rs ∧ run { settings } ms' = .ok rs' ∧
        heard uri ms rs = heard uri ms' rs' ∧ published uri rs = published uri rs' := by
  have without (ms : List Message) := exists_run_filter_concerns (.initial settings) ms uri
  refine ⟨without, fun ms ms' heq => ?_⟩
  obtain ⟨rs, rest, hrun, hrest, hheard, hpublished⟩ := without ms
  obtain ⟨rs', rest', hrun', hrest', hheard', hpublished'⟩ := without ms'
  rw [heq] at hrest hheard
  obtain rfl : rest = rest' := Except.ok.inj (hrest.symm.trans hrest')
  exact ⟨rs, rs', hrun, hrun', hheard.trans hheard'.symm, hpublished.trans hpublished'.symm⟩

/-- Two documents are opened, in one order or in the other, after a dialect was asked for. What is
then answered about the first one shows that it has this dialect. -/
theorem documents_do_not_interfere_swapped :
    let document (uri : String) (more : List (String × Json)) : String × Json :=
      ("textDocument", .object (("uri", .string uri) :: more))
    let connecting : Message := .request
      { id? := some (.number 1), method := "initialize"
        params? := some (.object
          [("initializationOptions", .object [("dialect", .string "kick")])]) }
    let opening (uri : String) : Message := .request
      { method := "textDocument/didOpen"
        params? := some (.object [document uri [("version", .nat 1), ("text", .string "'a")]]) }
    let question : Message := .request
      { id? := some (.number 7), method := "textDocument/diagnostic"
        params? := some (.object [document "u" []]) }
    let ms := [connecting, opening "u", opening "v", question]
    let ms' := [connecting, opening "v", opening "u", question]
    let remarks : List Diagnostic := (SymbolIndex.parse .kick [0x27, 0x61]).diagnostics
    ms.filter (·.concerns "u") = ms'.filter (·.concerns "u") ∧
      ∃ rs rs', run { settings := {} } ms = .ok rs ∧ run { settings := {} } ms' = .ok rs' ∧
        (question, [.result (.number 7) (.diagnostics remarks)]) ∈ heard "u" ms rs ∧
        heard "u" ms rs = heard "u" ms' rs' ∧ published "u" rs = published "u" rs' := by
  intro document connecting opening question ms ms' remarks
  have hconnecting : connecting.concerns "u" = true := by cbv
  have hopening : (opening "u").concerns "u" = true := by cbv
  have hother : (opening "v").concerns "u" = false := by cbv
  have hquestion : question.concerns "u" = true := by cbv
  have hfilter : ms.filter (·.concerns "u") = ms'.filter (·.concerns "u") := by
    simp [ms, ms', hconnecting, hopening, hother, hquestion]
  obtain ⟨rs, rs', hrun, hrun', hheard, hpublished⟩ :=
    (documents_do_not_interfere {} "u").2 ms ms' hfilter
  have hpreferred : connecting.event? = some (.preferred .kick) := by cbv
  have hopened : (opening "u").event? = some (.opened "u" 1 [0x27, 0x61]) := by cbv
  have hopened' : (opening "v").event? = some (.opened "v" 1 [0x27, 0x61]) := by cbv
  have goesOn : ∀ m ∈ [connecting, opening "u", opening "v"], m.closes = false := by
    have hconnecting' : connecting.closes = false := by cbv
    have hopening' (uri : String) : (opening uri).closes = false := by cbv
    simp [hconnecting', hopening']
  have hheld : (Store.after { settings := {} } [connecting, opening "u", opening "v"]).held "u" =
      some ⟨[0x27, 0x61], 1, .kick⟩ := by
    simp only [Store.after_cons, Store.after_nil, Store.receive, hpreferred, hopened, hopened']
    rfl
  obtain ⟨rs₀, hrun₀, follows, -⟩ := ensures_run (.initial {}) ms
  obtain rfl : rs = rs₀ := Except.ok.inj (hrun.symm.trans hrun₀)
  obtain ⟨reaction, hreaction, hfollows⟩ := follows _ question [] rfl goesOn
  obtain ⟨a, ha, hsent⟩ := hfollows.answers _ "u" .diagnostics rfl (by cbv)
  rw [Store.answer, hheld] at ha
  obtain rfl : .diagnostics remarks = a := Except.ok.inj ha
  have hzip : (ms.zip rs)[3]? = some (question, reaction) :=
    List.getElem?_zip_eq_some.2 ⟨rfl, hreaction⟩
  have hmem : (question, reaction.sent) ∈ heard "u" ms rs :=
    List.mem_map_of_mem (List.mem_filter.2 ⟨List.mem_of_getElem? hzip, hquestion⟩)
  rw [hsent] at hmem
  exact ⟨hfilter, rs, rs', hrun, hrun', hmem, hheard, hpublished⟩

end Server

end Asm6502
