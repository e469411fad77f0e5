import Asm6502.Server.Answer
import Asm6502.Settings
import Mathlib

/-!
# The store of open texts

What an editor may expect of the server, in terms of the messages alone. Messages open, change and
close documents. What is open is a text with its version and its dialect, and all answers are about
the index of that text.

## Main definitions

- `Event`, `Message.event?`: what a message says about the documents.
- `Held`, `Store`: the texts that are open.
- `Holds`: the text of a document, told from all that was said about it.
- `DocumentQuery`, `Request.query?`, `Store.answer`: questions about a document.
- `Store.publication?`: what the server says of its own accord.

## Main statements

- `Store.held_after_iff`: the store holds the text that came last.
-/

namespace Asm6502

/-! ## Events -/

/-- What a message says about the documents. -/
inductive Event where
  | opened (uri : String) (version : Int) (source : Bytes)
  | changed (uri : String) (version : Int) (source : Bytes)
  | closed (uri : String)
  /-- Documents that are opened from now on have the dialect. -/
  | preferred (d : Dialect)

namespace Event

/-- Whether a document is opened or closed. -/
def restarts (uri : String) : Event → Bool
  | opened uri' _ _ => uri' = uri
  | closed uri' => uri' = uri
  | _ => false

/-- The version and the text that a document changes to. -/
def text? (uri : String) : Event → Option (Int × Bytes)
  | changed uri' version source => if uri' = uri then some (version, source) else none
  | _ => none

def preference? : Event → Option Dialect
  | preferred d => some d
  | _ => none

end Event

/-- What a request says about the documents. Parameters that cannot be read say nothing, and neither
does a change without a text or a dialect that does not exist. -/
def Request.event? (r : Request) : Option Event :=
  match Method.ofName? r.method with
  | some .didOpen => (r.decode OpenParams.decoder {}).toOption.map fun p =>
    .opened p.uri p.version (Text.ofString p.text).bytes
  | some .didChange => (r.decode ChangeParams.decoder {}).toOption.bind fun p =>
    p.changes.items.getLast?.map fun text =>
      .changed p.uri p.version (Text.ofString text).bytes
  | some .didClose => (r.decode DocumentParams.decoder {}).toOption.map fun p => .closed p.uri
  | some .connect => (r.decode ConnectParams.decoder {}).toOption.bind fun p =>
    (p.dialect?.filter (· ≠ "")).bind fun name =>
      (Dialect.ofName? (Text.ofString name)).map .preferred
  | _ => none

namespace Message

def event? : Message → Option Event
  | request r => r.event?
  | _ => none

/-- Whether the connection ends with the message. -/
def closes : Message → Bool
  | request r => Method.ofName? r.method = some .exit
  | response => false
  | malformed => true

end Message

/-! ## Questions -/

/-- A question about a document. -/
inductive DocumentQuery where
  | diagnostics
  | hover (p : Position)
  | definition (p : Position)
  | references (p : Position) (withDeclarations : Bool)
  | outline
  | completion (p : Position)
  | highlights

namespace DocumentQuery

/-- The answer about a document that is not open. -/
def absent : DocumentQuery → Answer
  | diagnostics => .diagnostics []
  | hover _ => .nothing
  | definition _ => .nothing
  | references _ _ => .locations []
  | outline => .outline []
  | completion _ => .completion {}
  | highlights => .highlights []

/-- The answer about a document with the given index. -/
def answer (q : DocumentQuery) (uri : String) (ix : SymbolIndex) : Checked Answer :=
  match q with
  | diagnostics => pure (.diagnostics ix.diagnostics)
  | hover p => do return (← ix.hoverAt p).elim .nothing .hover
  | definition p => do return (← ix.definitionAt uri p).elim .nothing .location
  | references p withDeclarations => do
    return .locations (← ix.referencesAt uri p withDeclarations)
  | outline => do return .outline (← ix.outline)
  | completion p => do return .completion (← ix.completeAt p)
  | highlights => do return .highlights (← ix.highlights)

end DocumentQuery

/-- What a request asks, and about which document. -/
def Request.query? (r : Request) : Option (String × DocumentQuery) :=
  match Method.ofName? r.method with
  | some .diagnostic => (r.decode DocumentParams.decoder {}).toOption.map fun p =>
    (p.uri, .diagnostics)
  | some .hover => (r.decode PositionParams.decoder {}).toOption.map fun p =>
    (p.uri, .hover p.position)
  | some .definition => (r.decode PositionParams.decoder {}).toOption.map fun p =>
    (p.uri, .definition p.position)
  | some .references => (r.decode ReferenceParams.decoder {}).toOption.map fun p =>
    (p.uri, .references p.position p.withDeclarations)
  | some .documentSymbol => (r.decode DocumentParams.decoder {}).toOption.map fun p =>
    (p.uri, .outline)
  | some .completion => (r.decode PositionParams.decoder {}).toOption.map fun p =>
    (p.uri, .completion p.position)
  | some .semanticTokens => (r.decode DocumentParams.decoder {}).toOption.map fun p =>
    (p.uri, .highlights)
  | _ => none

/-- What a message publishes. -/
def Outgoing.publication? : Outgoing → Option Publication
  | publication p => some p
  | _ => none

/-! ## The store -/

/-- A text that is open. -/
structure Held where
  source : Bytes
  version : Int
  dialect : Dialect

namespace Held

def index (held : Held) : SymbolIndex :=
  .parse held.dialect held.source

/-- A text after a change, if there is one. -/
def revised (held : Held) : Option (Int × Bytes) → Held
  | some (version, source) => { held with source, version }
  | none => held

theorem revised_revised (held : Held) (earlier : Option (Int × Bytes)) (text : Int × Bytes) :
    (held.revised earlier).revised (some text) = held.revised (some text) := by
  cases earlier <;> rfl

@[simp] theorem revised_none (held : Held) : held.revised none = held := rfl

@[simp] theorem revised_some (held : Held) (version : Int) (source : Bytes) :
    held.revised (some (version, source)) = { held with source, version } := rfl

end Held

/-- The texts that are open, and what decides the dialects of others. -/
structure Store where
  settings : Settings
  preference? : Option Dialect := none
  held : String → Option Held := fun _ => none

/-- After the events the document is open and has the given text. It was opened, and since then
neither opened again nor closed. The text is that of the last change since then, and the dialect the
one that was in force when the document was opened. -/
def Holds (settings : Settings) (events : List Event) (uri : String) (held : Held) : Prop :=
  ∃ before version source after,
    events = before ++ .opened uri version source :: after ∧
    (∀ e ∈ after, e.restarts uri = false) ∧
    held = Held.revised
      { source, version
        dialect := (before.filterMap Event.preference?).getLast?.getD (settings.dialectFor uri) }
      (after.filterMap (Event.text? uri)).getLast?

namespace Store

/-- The dialect of a document that is opened. -/
def dialectFor (s : Store) (uri : String) : Dialect :=
  s.preference?.getD (s.settings.dialectFor uri)

def apply (s : Store) : Event → Store
  | .opened uri version source =>
    { s with held := Function.update s.held uri (some ⟨source, version, s.dialectFor uri⟩) }
  | .changed uri version source =>
    { s with held := Function.update s.held uri ((s.held uri).map ({ · with source, version })) }
  | .closed uri => { s with held := Function.update s.held uri none }
  | .preferred d => { s with preference? := some d }

theorem held_apply_opened (s : Store) (uri : String) (version : Int) (source : Bytes)
    (uri' : String) :
    (s.apply (.opened uri version source)).held uri' =
      if uri' = uri then some ⟨source, version, s.dialectFor uri⟩ else s.held uri' :=
  Function.update_apply ..

theorem held_apply_changed (s : Store) (uri : String) (version : Int) (source : Bytes)
    (uri' : String) :
    (s.apply (.changed uri version source)).held uri' =
      if uri' = uri then (s.held uri).map ({ · with source, version }) else s.held uri' :=
  Function.update_apply ..

theorem held_apply_closed (s : Store) (uri uri' : String) :
    (s.apply (.closed uri)).held uri' = if uri' = uri then none else s.held uri' :=
  Function.update_apply ..

/-- The store after a message. -/
def receive (s : Store) (m : Message) : Store :=
  m.event?.elim s s.apply

/-- The answer to a question. -/
def answer (s : Store) (uri : String) (q : DocumentQuery) : Checked Answer :=
  match s.held uri with
  | some held => q.answer uri held.index
  | none => pure q.absent

/-- What is published after an event: the remarks on a text that is new. -/
def publication? (s : Store) : Event → Option Publication
  | .opened uri version source =>
    some { uri, version, diagnostics := (SymbolIndex.parse (s.dialectFor uri) source).diagnostics }
  | .changed uri version source => (s.held uri).map fun held =>
    { uri, version, diagnostics := (SymbolIndex.parse held.dialect source).diagnostics }
  | _ => none

/-- The store after messages. -/
def after (s : Store) (ms : List Message) : Store :=
  (ms.filterMap Message.event?).foldl apply s

@[simp] theorem after_nil (s : Store) : s.after [] = s := rfl

@[simp] theorem after_cons (s : Store) (m : Message) (ms : List Message) :
    s.after (m :: ms) = (s.receive m).after ms := by
  cases h : m.event? with
  | none => simp [after, receive, h]
  | some e => simp [after, receive, h]

end Store

/-! ## The history of a document -/

theorem holds_concat_iff {settings : Settings} {events : List Event} {e : Event} {uri : String}
    {held : Held} :
    Holds settings (events ++ [e]) uri held ↔
      (∃ version source, e = .opened uri version source ∧
        held = ⟨source, version,
          (events.filterMap Event.preference?).getLast?.getD (settings.dialectFor uri)⟩) ∨
      e.restarts uri = false ∧
        ∃ earlier, Holds settings events uri earlier ∧ held = earlier.revised (e.text? uri) := by
  constructor
  · rintro ⟨before, version, source, after, heq, quiet, rfl⟩
    -- the last event is the one that opened the document, or it came after that one
    rcases List.eq_nil_or_concat after with rfl | ⟨after, e', rfl⟩
    · obtain ⟨rfl, he⟩ := List.append_inj' heq rfl
      exact .inl ⟨version, source, by simpa using he, rfl⟩
    · rw [List.concat_eq_append, ← List.cons_append, ← List.append_assoc] at heq
      obtain ⟨rfl, he⟩ := List.append_inj' heq rfl
      obtain rfl : e = e' := by simpa using he
      refine .inr ⟨quiet e (by simp), _, ⟨before, version, source, after, rfl,
        fun e' he' => quiet e' (by simp [he']), rfl⟩, ?_⟩
      cases h : e.text? uri with
      | none => simp [h]
      | some text => simp [h, Held.revised_revised]
  · rintro (⟨version, source, rfl, rfl⟩ | ⟨quiet, earlier, holds, rfl⟩)
    · exact ⟨events, version, source, [], rfl, by simp, rfl⟩
    · obtain ⟨before, version, source, after, rfl, quiet', rfl⟩ := holds
      refine ⟨before, version, source, after ++ [e], by simp, ?_, ?_⟩
      · intro e' he'
        rcases List.mem_append.1 he' with he' | he'
        · exact quiet' e' he'
        · rw [List.mem_singleton.1 he']
          exact quiet
      · cases h : e.text? uri with
        | none => simp [h]
        | some text => simp [h, Held.revised_revised]

namespace Store

variable {settings : Settings} {events : List Event} {uri : String} {held : Held}

theorem settings_foldl_apply (s : Store) (events : List Event) :
    (events.foldl apply s).settings = s.settings := by
  induction events generalizing s with
  | nil => rfl
  | cons e events ih =>
    rw [List.foldl_cons, ih]
    cases e <;> rfl

theorem preference?_foldl_apply (settings : Settings) (events : List Event) :
    (events.foldl apply { settings }).preference? =
      (events.filterMap Event.preference?).getLast? := by
  induction events using List.reverseRecOn with
  | nil => rfl
  | append_singleton events e ih =>
    rw [List.foldl_concat]
    cases e with
    | preferred d => simp [apply, Event.preference?]
    | _ => simpa [apply, Event.preference?] using ih

/-- A store holds what it held before an event, unless the event says otherwise. -/
theorem held_apply_eq_some_iff (s : Store) (e : Event) :
    (s.apply e).held uri = some held ↔
      (∃ version source, e = .opened uri version source ∧
        held = ⟨source, version, s.dialectFor uri⟩) ∨
      e.restarts uri = false ∧
        ∃ earlier, s.held uri = some earlier ∧ held = earlier.revised (e.text? uri) := by
  cases e with
  | opened uri' version source =>
    rw [held_apply_opened]
    by_cases h : uri = uri'
    · simp [Event.restarts, h, eq_comm]
    · simp [Event.restarts, Event.text?, h, Ne.symm h]
  | changed uri' version source =>
    rw [held_apply_changed]
    by_cases h : uri = uri'
    · simp [Event.restarts, Event.text?, h, eq_comm]
    · simp [Event.restarts, Event.text?, h, Ne.symm h]
  | closed uri' =>
    rw [held_apply_closed]
    by_cases h : uri = uri'
    · simp [Event.restarts, h]
    · simp [Event.restarts, Event.text?, h, Ne.symm h]
  | preferred d => simp [apply, Event.restarts, Event.text?]

theorem held_foldl_apply_iff :
    (events.foldl apply { settings }).held uri = some held ↔ Holds settings events uri held := by
  induction events using List.reverseRecOn generalizing held with
  | nil => simp [Holds]
  | append_singleton events e ih =>
    rw [List.foldl_concat, held_apply_eq_some_iff, holds_concat_iff]
    simp only [ih, dialectFor, preference?_foldl_apply, settings_foldl_apply]

theorem held_after_iff {ms : List Message} :
    (after { settings } ms).held uri = some held ↔
      Holds settings (ms.filterMap Message.event?) uri held :=
  held_foldl_apply_iff

end Store

end Asm6502
