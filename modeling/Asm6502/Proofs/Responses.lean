import Asm6502.Proofs.Interleaving
import Asm6502.Proofs.Serving

/-!
# Responses

A request with an identifier waits for its response. It gets one, and only one, whatever the
documents are and whichever tasks are under way: a failure if the method is not known or does not
take the parameters, and else a result. Nothing is sent back about a notice that is in order.

## Main definitions

- `Method.isNotice`, `Method.takes`: what is to be said about a request.
- `Indexing.Reaches`: what a server gets to from a state, with its tasks in any order.
- `Workspace.Indexed`: all indices were made of some text.
- `Reaction.Responds`: the responses that are due.

## Main statements

- `Indexing.Reaches.indexed`: indices are made of texts, in every state that a server gets to.
- `Server.ensures_dispatch_of_takes`: a request that is in order is carried out.
-/

namespace Asm6502

open Checked (Ensures ensures_pure)

/-! ## Methods -/

namespace Method

/-- The methods that tell the server something. All others ask for something. -/
def isNotice : Method → Bool
  | connected | didOpen | didChange | didClose | exit => true
  | _ => false

/-- Whether a method can do with the parameters that are given, if any are. -/
def takes (params? : Option Json) : Method → Bool
  | connect => (params?.bind (ConnectParams.decoder {})).isSome
  | didOpen => (params?.bind (OpenParams.decoder {})).isSome
  | didChange => (params?.bind (ChangeParams.decoder {})).isSome
  | didClose | diagnostic | documentSymbol | semanticTokens =>
    (params?.bind (DocumentParams.decoder {})).isSome
  | hover | definition | completion => (params?.bind (PositionParams.decoder {})).isSome
  | references => (params?.bind (ReferenceParams.decoder {})).isSome
  | connected | shutdown | exit => true

theorem ofName?_name (m : Method) : ofName? m.name = some m := by
  cases m <;> rfl

theorem ofName?_eq_some_iff {name : String} {m : Method} :
    ofName? name = some m ↔ m.name = name := by
  constructor
  · intro h
    simpa using List.find?_some h
  · rintro rfl
    exact ofName?_name m

end Method

/-! ## States -/

namespace Workspace

variable {w : Workspace}

/-- Every index that a document keeps was made of a text, though perhaps not of its own. -/
def Indexed (w : Workspace) : Prop :=
  ∀ uri doc ix, w.document? uri = some doc → doc.index? = some ix → ∃ held : Held, ix = held.index

namespace Indexed

theorem initial (settings : Settings) : Indexed { settings } := by
  intro uri doc ix hdoc
  simp [document?, Table.find?] at hdoc

theorem setDocument (h : w.Indexed) {doc : Document}
    (hdoc : ∀ ix, doc.index? = some ix → ∃ held : Held, ix = held.index) (uri : String) :
    (w.setDocument uri doc).Indexed := by
  intro uri' doc' ix hdoc' hix
  rw [document?_setDocument] at hdoc'
  split at hdoc'
  · obtain rfl : doc = doc' := Option.some.inj hdoc'
    exact hdoc ix hix
  · exact h uri' doc' ix hdoc' hix

theorem keep (h : w.Indexed) (uri : String) (doc : Document) (held : Held) :
    (w.setDocument uri (doc.keep held.index)).Indexed := by
  refine h.setDocument (fun ix hix => ⟨held, ?_⟩) uri
  exact (Option.some.inj hix).symm

theorem openDocument (h : w.Indexed) (uri : String) (version : Int) (source : Bytes) :
    (w.openDocument uri version source).Indexed := by
  refine h.setDocument (fun ix hix => ?_) uri
  cases hix

theorem changeDocument (h : w.Indexed) (uri : String) (version : Int) (source : Bytes) :
    (w.changeDocument uri version source).Indexed := by
  unfold Workspace.changeDocument
  split
  · rename_i doc hdoc
    -- the index stays, though the text is another
    have kept (ix : SymbolIndex) (hix : (doc.change version source).index? = some ix) :
        ∃ held : Held, ix = held.index :=
      h uri doc ix hdoc hix
    exact h.setDocument kept uri
  · exact h

theorem closeDocument (h : w.Indexed) (uri : String) : (w.closeDocument uri).Indexed := by
  intro uri' doc ix hdoc hix
  rw [document?_closeDocument] at hdoc
  split at hdoc
  · cases hdoc
  · exact h uri' doc ix hdoc hix

theorem finish (h : w.Indexed) (task : ParseTask) : (w.finish task).1.Indexed := by
  unfold Workspace.finish Workspace.store?
  cases w.document? task.uri with
  | none => exact h
  | some doc =>
    dsimp only
    by_cases hgeneration : doc.generation = task.generation
    · rw [if_pos hgeneration]
      exact h.keep task.uri doc ⟨task.source, task.version, task.dialect⟩
    · rw [if_neg hgeneration]
      exact h

theorem currentIndex (h : w.Indexed) (uri : String) :
    (w.currentIndex uri).1.Indexed ∧
      ∀ ix, (w.currentIndex uri).2 = some ix → ∃ held : Held, ix = held.index := by
  unfold Workspace.currentIndex
  cases hdoc : w.document? uri with
  | none => exact ⟨h, by simp⟩
  | some doc =>
    dsimp only
    cases hfresh : doc.freshIndex? with
    | some ix =>
      refine ⟨h, fun ix' hix' => ?_⟩
      obtain rfl : ix = ix' := Option.some.inj hix'
      have hix : doc.index? = some ix := by
        unfold Document.freshIndex? at hfresh
        split at hfresh
        · exact hfresh
        · cases hfresh
      exact h uri doc ix hdoc hix
    | none =>
      refine ⟨h.keep uri doc doc.held, fun ix hix => ⟨doc.held, ?_⟩⟩
      exact (Option.some.inj hix).symm

end Indexed

end Workspace

namespace Indexing

variable {s s' : Indexing}

/-- What a server gets to from a state. Messages come in, and tasks end when they may. -/
abbrev Reaches (s s' : Indexing) : Prop :=
  Relation.ReflTransGen (Step fun _ _ => True) s s'

theorem Step.indexed (h : Step (fun _ _ => True) s s') (hs : s.workspace.Indexed) :
    s'.workspace.Indexed := by
  cases h with
  | opened uri version source => exact hs.openDocument uri version source
  | changed uri version source => exact hs.changeDocument uri version source
  | closed uri => exact hs.closeDocument uri
  | preferred d => exact hs
  | started given => exact hs
  | finished front back task => exact hs.finish task
  | cancelled front back task => exact hs
  | asked uri => exact (hs.currentIndex uri).1

theorem Reaches.indexed (h : Reaches s s') (hs : s.workspace.Indexed) : s'.workspace.Indexed := by
  induction h with
  | refl => exact hs
  | tail _ hstep ih => exact hstep.indexed ih

end Indexing

/-! ## Reactions -/

/-- Whether a message is about a request, rather than of the server's own accord. -/
def Outgoing.isResponse : Outgoing → Bool
  | result _ _ | failure _ _ => true
  | publication _ => false

namespace Reaction

variable {reaction : Reaction} {w : Workspace} {r : Request}

def responses (reaction : Reaction) : List Outgoing :=
  reaction.sent.filter Outgoing.isResponse

/-- The request is carried out, and there is a result if the method asks for one. -/
structure CarriesOut (reaction : Reaction) (w : Workspace) (r : Request) (m : Method) : Prop where
  reaches : ∀ pending, Indexing.Reaches ⟨w, pending⟩ ⟨reaction.workspace, pending⟩
  responses : ∃ a, reaction.responses =
    if m.isNotice then [] else [.result (r.id?.getD (.number 0)) a]

/-- The responses that are due to a request, and no others. -/
structure Responds (reaction : Reaction) (w : Workspace) (r : Request) : Prop where
  /-- The method is not known. -/
  unknown : (∀ m : Method, m.name ≠ r.method) → reaction.workspace = w ∧
    ∀ id, r.id? = some id → ∃ e : RequestError, e.code = -32601 ∧
      reaction.responses = [.failure id e]
  /-- The method does not take the parameters. -/
  refused : ∀ m : Method, m.name = r.method → m.takes r.params? = false → reaction.workspace = w ∧
    ∀ id, r.id? = some id → ∃ e : RequestError, e.code = -32602 ∧
      reaction.responses = [.failure id e]
  /-- The request tells the server something. -/
  noted : ∀ m : Method, m.name = r.method → m.takes r.params? = true → m.isNotice = true →
    reaction.responses = []
  /-- The request asks for something. -/
  answered : ∀ m : Method, m.name = r.method → m.takes r.params? = true → m.isNotice = false →
    ∀ id, r.id? = some id → ∃ a, reaction.responses = [.result id a]

theorem Responds.logged (h : reaction.Responds w r) (line : String) :
    (reaction.logged line).Responds w r :=
  ⟨h.unknown, h.refused, h.noted, h.answered⟩

end Reaction

namespace Server

variable {w : Workspace} {r : Request}

/-! ## Parameters -/

section

variable {α : Type} {decoder : Json.Decoder α} {zero : α} {next : α → Checked Reaction}

theorem withParams_of_isSome (h : (r.params?.bind (decoder zero)).isSome = true) :
    ∃ p, withParams w r decoder zero next = next p := by
  obtain ⟨p, hp⟩ := Option.isSome_iff_exists.1 h
  obtain ⟨params, hparams, hvalue⟩ := Option.bind_eq_some_iff.1 hp
  exact ⟨p, by simp only [withParams, Request.decode, hparams, hvalue]⟩

theorem withParams_of_isSome_eq_false (h : (r.params?.bind (decoder zero)).isSome = false) :
    ∃ e : RequestError, e.code = -32602 ∧
      ∃ line, withParams w r decoder zero next = pure ((refuse w r e).logged line) := by
  have refused {e : RequestError} (he : r.decode decoder zero = .error e) :
      ∃ line, withParams w r decoder zero next = pure ((refuse w r e).logged line) :=
    ⟨_, by rw [withParams, he]⟩
  cases hparams : r.params? with
  | none => exact ⟨.missingParams, rfl, refused (by rw [Request.decode, hparams])⟩
  | some params =>
    have hnone : decoder zero params = none := by simpa [hparams] using h
    exact ⟨.malformedParams, rfl, refused (by simp only [Request.decode, hparams, hnone])⟩

end

theorem dispatch_of_not_takes {m : Method} (h : m.takes r.params? = false) :
    ∃ e : RequestError, e.code = -32602 ∧
      ∃ line, dispatch w r m = pure ((refuse w r e).logged line) := by
  cases m with
  | connected | shutdown | exit => cases h
  | _ => exact withParams_of_isSome_eq_false h

/-! ## Requests in order -/

theorem reaches_reparse (w : Workspace) (uri : String) (pending : List ParseTask) :
    Indexing.Reaches ⟨w, pending⟩ ⟨(reparse w uri).workspace, pending⟩ := by
  cases htask : w.task? uri with
  | none =>
    rw [reparse, htask]
  | some task =>
    have heq : (reparse w uri).workspace = (w.finish task).1 := by
      simp only [reparse, htask]
      split
      · rename_i hfinish
        rw [hfinish]
      · rename_i hfinish
        rw [hfinish]
        rfl
    rw [heq]
    -- the task is given and ends before the next message is looked at
    exact .tail (.single (.started htask)) (.finished [] pending task)

theorem responses_reparse (w : Workspace) (uri : String) : (reparse w uri).responses = [] := by
  cases hdoc : w.document? uri with
  | none =>
    rw [reparse_of_not_open hdoc]
    rfl
  | some doc =>
    obtain ⟨logs, heq⟩ := exists_reparse_eq hdoc
    rw [heq]
    rfl

theorem carriesOut_reparse {m : Method} {w' : Workspace} (hm : m.isNotice = true)
    (h : ∀ pending, Indexing.Step (fun _ _ => True) ⟨w, pending⟩ ⟨w', pending⟩) (uri : String) :
    (reparse w' uri).CarriesOut w r m where
  reaches pending := .head (h pending) (reaches_reparse w' uri pending)
  responses := ⟨.nothing, by rw [responses_reparse, if_pos hm]⟩

theorem carriesOut_change (w : Workspace) (r : Request) (p : ChangeParams) :
    (change w p).CarriesOut w r .didChange := by
  unfold change
  split
  · exact ⟨fun _ => .refl, .nothing, rfl⟩
  · exact carriesOut_reparse rfl (fun _ => .changed ..) p.uri

theorem carriesOut_connect (w : Workspace) (r : Request) (p : ConnectParams) :
    (connect w r p).CarriesOut w r .connect := by
  unfold connect
  split
  · exact ⟨fun _ => .refl, .capabilities, rfl⟩
  · split
    · exact ⟨fun _ => .refl, .capabilities, rfl⟩
    · split
      · rename_i d hd
        exact ⟨fun _ => .single (.preferred d), .capabilities, rfl⟩
      · exact ⟨fun _ => .refl, .capabilities, rfl⟩

theorem carriesOut_query (h : w.Indexed) {m : Method} (hm : m.isNotice = false) (uri : String)
    (q : DocumentQuery) :
    Ensures (query w r uri q.absent (q.answer uri)) (·.CarriesOut w r m) := by
  have replied (a : Answer) : (reply (w.currentIndex uri).1 r a).CarriesOut w r m :=
    ⟨fun _ => .single (.asked uri), a, by rw [hm]; rfl⟩
  have made := (h.currentIndex uri).2
  unfold query
  split
  · rename_i w' hcurrent
    rw [hcurrent] at replied
    exact ensures_pure (replied q.absent)
  · rename_i w' ix hcurrent
    rw [hcurrent] at replied made
    obtain ⟨held, rfl⟩ := made ix rfl
    obtain ⟨a, ha, -⟩ := q.succeeds_answer uri held
    rw [ha]
    exact ensures_pure (replied a)

/-- A request whose parameters are in order is carried out. -/
theorem ensures_dispatch_of_takes (h : w.Indexed) {m : Method} (hm : m.takes r.params? = true) :
    Ensures (dispatch w r m) (·.CarriesOut w r m) := by
  have parts {α : Type} {decoder : Json.Decoder α} {zero : α} {next : α → Checked Reaction}
      (hsome : (r.params?.bind (decoder zero)).isSome = true)
      (hnext : ∀ p, Ensures (next p) (·.CarriesOut w r m)) :
      Ensures (withParams w r decoder zero next) (·.CarriesOut w r m) := by
    obtain ⟨p, hp⟩ := withParams_of_isSome hsome
    rw [hp]
    exact hnext p
  cases m with
  | connect => exact parts hm fun p => ensures_pure (carriesOut_connect w r p)
  | connected => exact ensures_pure ⟨fun _ => .refl, .nothing, rfl⟩
  | didOpen =>
    exact parts hm fun p => ensures_pure (carriesOut_reparse rfl (fun _ => .opened _ _ _ trivial) _)
  | didChange => exact parts hm fun p => ensures_pure (carriesOut_change w r p)
  | didClose =>
    exact parts hm fun p => ensures_pure ⟨fun _ => .single (.closed p.uri), .nothing, rfl⟩
  | diagnostic => exact parts hm fun p => carriesOut_query h rfl p.uri .diagnostics
  | hover => exact parts hm fun p => carriesOut_query h rfl p.uri (.hover p.position)
  | definition => exact parts hm fun p => carriesOut_query h rfl p.uri (.definition p.position)
  | references =>
    exact parts hm fun p =>
      carriesOut_query h rfl p.uri (.references p.position p.withDeclarations)
  | documentSymbol => exact parts hm fun p => carriesOut_query h rfl p.uri .outline
  | completion => exact parts hm fun p => carriesOut_query h rfl p.uri (.completion p.position)
  | semanticTokens => exact parts hm fun p => carriesOut_query h rfl p.uri .highlights
  | shutdown => exact ensures_pure ⟨fun _ => .refl, .nothing, rfl⟩
  | exit => exact ensures_pure ⟨fun _ => .refl, .nothing, rfl⟩

/-! ## Requests -/

theorem responses_refuse (w : Workspace) {id : RequestId} (h : r.id? = some id) (e : RequestError) :
    (refuse w r e).responses = [.failure id e] := by
  simp [refuse, h, Reaction.responses, Outgoing.isResponse]

/-- A request with a method that the server knows. -/
theorem ensures_responds_dispatch (h : w.Indexed) {m : Method} (hm : m.name = r.method) :
    Ensures (dispatch w r m) fun reaction => reaction.Responds w r ∧
      ∀ pending, Indexing.Reaches ⟨w, pending⟩ ⟨reaction.workspace, pending⟩ := by
  have only {m' : Method} (hm' : m'.name = r.method) : m' = m := by
    rw [← Method.ofName?_eq_some_iff] at hm hm'
    exact Option.some.inj (hm'.symm.trans hm)
  cases htakes : m.takes r.params? with
  | false =>
    obtain ⟨e, hcode, line, heq⟩ := dispatch_of_not_takes (w := w) htakes
    have taken {m' : Method} (hm' : m'.name = r.method) : m'.takes r.params? ≠ true := by
      simp [only hm', htakes]
    rw [heq]
    refine ensures_pure ⟨?_, fun _ => .refl⟩
    exact
      { unknown hno := absurd hm (hno m)
        refused _ _ _ := ⟨rfl, fun id hid => ⟨e, hcode, responses_refuse w hid e⟩⟩
        noted m' hm' htakes' := absurd htakes' (taken hm')
        answered m' hm' htakes' := absurd htakes' (taken hm') }
  | true =>
    obtain ⟨reaction, hreaction, reaches, a, ha⟩ := ensures_dispatch_of_takes h htakes
    refine ⟨reaction, hreaction, ?_, reaches⟩
    exact
      { unknown hno := absurd hm (hno m)
        refused m' hm' htakes' := absurd htakes' (by simp [only hm', htakes])
        noted m' hm' _ hnotice := by rw [ha, if_pos (only hm' ▸ hnotice)]
        answered m' hm' _ hnotice id hid := by
          rw [only hm'] at hnotice
          exact ⟨a, by rw [ha, hnotice, hid]; rfl⟩ }

theorem ensures_responds_handle (h : w.Indexed) (r : Request) :
    Ensures (handle w r) fun reaction => reaction.Responds w r ∧
      ∀ pending, Indexing.Reaches ⟨w, pending⟩ ⟨reaction.workspace, pending⟩ := by
  unfold handle
  cases hm : Method.ofName? r.method with
  | some m =>
    rw [Method.ofName?_eq_some_iff] at hm
    refine (ensures_responds_dispatch h hm).bind fun reaction hreaction => ?_
    exact ensures_pure ⟨hreaction.1.logged _, hreaction.2⟩
  | none =>
    have hno (m : Method) : m.name ≠ r.method := by
      rw [ne_eq, ← Method.ofName?_eq_some_iff, hm]
      simp
    have responds : (refuse w r (.unsupportedMethod r.method)).Responds w r :=
      { unknown _ := ⟨rfl, fun id hid => ⟨_, rfl, responses_refuse w hid _⟩⟩
        refused m hm' := absurd hm' (hno m)
        noted m hm' := absurd hm' (hno m)
        answered m hm' := absurd hm' (hno m) }
    exact ensures_pure ⟨responds.logged _, fun _ => .refl⟩

/-- Whatever has come in so far and whichever tasks have ended, every request is handled, gets the
responses that are due to it, and leaves a state that the server gets to. -/
theorem every_request_gets_its_due (settings : Settings) (s : Indexing)
    (hs : Indexing.Reaches { workspace := { settings } } s) (r : Request) :
    ∃ reaction : Reaction, receive s.workspace (.request r) = .ok reaction ∧
      reaction.Responds s.workspace r ∧
      Indexing.Reaches { workspace := { settings } } ⟨reaction.workspace, s.pending⟩ := by
  have indexed : s.workspace.Indexed := hs.indexed (.initial settings)
  obtain ⟨reaction, hreaction, responds, reaches⟩ := ensures_responds_handle indexed r
  exact ⟨reaction, hreaction, responds, hs.trans (reaches s.pending)⟩

/-- The task for a document is under way. A change of the document without a text to change to is
refused, a method that no server knows as well, and the request to shut down needs no parameters. -/
theorem every_request_gets_its_due_while_indexing :
    let w := Workspace.openDocument { settings := {} } "u" 1 [0x61]
    let task : ParseTask := ⟨"u", [0x61], .acme, 0, 1⟩
    let s : Indexing := ⟨w, [task]⟩
    let request (method : String) (params? : Option Json) : Message :=
      .request { id? := some (.number 3), method, params? }
    Indexing.Reaches { workspace := { settings := {} } } s ∧
      (∃ reaction : Reaction, ∃ e : RequestError,
        receive w (request "textDocument/didChange"
          (some (.object [("contentChanges", .string "a")]))) = .ok reaction ∧
        reaction.workspace = w ∧ e.code = -32602 ∧
        reaction.responses = [.failure (.number 3) e]) ∧
      (∃ reaction : Reaction, ∃ e : RequestError, receive w (request "u" none) = .ok reaction ∧
        e.code = -32601 ∧ reaction.responses = [.failure (.number 3) e]) ∧
      ∃ reaction : Reaction, ∃ a, receive w (request "shutdown" none) = .ok reaction ∧
        reaction.responses = [.result (.number 3) a] := by
  intro w task s request
  have given : w.task? "u" = some task := by cbv
  have hs : Indexing.Reaches { workspace := { settings := {} } } s :=
    .tail (.single (.opened "u" 1 [0x61] trivial)) (.started given)
  refine ⟨hs, ?_, ?_, ?_⟩
  · obtain ⟨reaction, hreaction, responds, -⟩ := every_request_gets_its_due {} s hs
      { id? := some (.number 3), method := "textDocument/didChange"
        params? := some (.object [("contentChanges", .string "a")]) }
    obtain ⟨hw, hfailure⟩ := responds.refused .didChange rfl (by cbv)
    obtain ⟨e, hcode, hsent⟩ := hfailure _ rfl
    exact ⟨reaction, e, hreaction, hw, hcode, hsent⟩
  · obtain ⟨reaction, hreaction, responds, -⟩ := every_request_gets_its_due {} s hs
      { id? := some (.number 3), method := "u" }
    obtain ⟨-, hfailure⟩ := responds.unknown (fun m => by cases m <;> decide)
    obtain ⟨e, hcode, hsent⟩ := hfailure _ rfl
    exact ⟨reaction, e, hreaction, hcode, hsent⟩
  · obtain ⟨reaction, hreaction, responds, -⟩ := every_request_gets_its_due {} s hs
      { id? := some (.number 3), method := "shutdown" }
    obtain ⟨a, hsent⟩ := responds.answered .shutdown rfl rfl rfl _ rfl
    exact ⟨reaction, a, hreaction, hsent⟩

end Server

end Asm6502
