import Delegation.Catalog

namespace Delegation

structure Session where
  catalog : Catalog
  scope : TableScope
  facts : Facts
  features : Features
  registry : Registry
  held : SortedMap String Index
  events : List Event

/-- A registration builds its source from a document. So a handle that is registered again after it
was replaced, and perhaps refreshed since, is a registration with the document that it accepted
last. -/
inductive Step where
  | external (spec : SourceSpec)
  | entity (name : String) (entity : Entity)
  | refresh (name : String) (document : Json)
  | hold (name label : String)
  | bind (scope : TableScope) (facts : Facts)
  | switch (features : Features)
  | define (function : Function)
  | decide (call : Call)

inductive Refusal where
  | document (fault : Document.Fault)
  | noExternal (name : String)
  | misuse (misuse : Misuse)

namespace Session

def start (catalog : Catalog) : Session where
  catalog := catalog
  scope := ⟨"", .empty, [], .empty⟩
  facts := .none
  features := .default
  registry := SortedMap.empty
  held := .empty
  events := []

def environment (s : Session) : Environment := s.scope.environment.withFacts s.facts

def context (s : Session) : Context := ⟨s.environment, s.registry, s.features⟩

def external? (s : Session) (name : String) : Except Refusal ExternalSource :=
  match s.registry.external? name with
  | some source => .ok source
  | none => .error (.noExternal name)

def decision (s : Session) (call : Call) : Except Refusal Decision :=
  (s.catalog.decide s.context call).mapError .misuse

def attempt (refuse : ε → Refusal) : Except ε α → EStateM Refusal Session α
  | .ok a => pure a
  | .error e => throw (refuse e)

/-- What a step does. A step that is refused keeps what it wrote before; each reads before it
writes. -/
def perform : Step → EStateM Refusal Session Unit
  | .external spec => do
    let source ← attempt .document (ExternalSource.ofSpec spec)
    modify fun s => { s with registry := s.registry.putExternal source }
  | .entity name entity => modify fun s => { s with registry := s.registry.putEntity name entity }
  | .refresh name document => do
    let source ← attempt id ((← get).external? name)
    -- a document that is rejected ends the step before the write
    let source ← attempt .document (source.refresh document)
    modify fun s => { s with registry := s.registry.putExternal source }
  | .hold name label => do
    let source ← attempt id ((← get).external? name)
    modify fun s => { s with held := s.held.insert label source.index }
  | .bind scope facts => modify fun s => { s with scope := scope, facts := facts }
  | .switch features => modify fun s => { s with features := features }
  | .define function => modify fun s => { s with catalog := s.catalog.register function }
  | .decide call => do
    let s ← get
    let (_, events) ← attempt .misuse (s.catalog.decideInto s.events s.context call)
    set { s with events := events }

def next (s : Session) (t : Step) : Session :=
  match (perform t).run s with
  | .ok _ s' => s'
  | .error _ s' => s'

def step (s : Session) (t : Step) : Except Refusal Session :=
  match (perform t).run s with
  | .ok _ s' => .ok s'
  | .error r _ => .error r

section
variable {s s' : Session} {t : Step} {r : Refusal}

theorem run_attempt_bind (refuse : ε → Refusal) (x : Except ε α) (k : α → EStateM Refusal Session β)
    (s : Session) : (attempt refuse x >>= k).run s =
      match x with
      | .ok a => (k a).run s
      | .error e => .error (refuse e) s := by
  cases x <;> rfl

theorem run_external (s : Session) (spec : SourceSpec) : (perform (.external spec)).run s =
    match ExternalSource.ofSpec spec with
    | .ok x => .ok () { s with registry := s.registry.putExternal x }
    | .error f => .error (.document f) s := by
  rw [perform, run_attempt_bind]
  cases ExternalSource.ofSpec spec <;> rfl

theorem run_refresh (s : Session) (name : String) (document : Json) :
    (perform (.refresh name document)).run s =
      match s.registry.external? name with
      | none => .error (.noExternal name) s
      | some x =>
        match x.refresh document with
        | .ok y => .ok () { s with registry := s.registry.putExternal y }
        | .error f => .error (.document f) s := by
  -- two readings stand before the write
  change (attempt id (s.external? name) >>= _).run s = _
  rw [run_attempt_bind, external?]
  cases s.registry.external? name with
  | none => rfl
  | some x =>
    change (attempt .document (x.refresh document) >>= _).run s = _
    rw [run_attempt_bind]
    dsimp only
    cases x.refresh document <;> rfl

theorem run_hold (s : Session) (name label : String) : (perform (.hold name label)).run s =
    match s.registry.external? name with
    | none => .error (.noExternal name) s
    | some x => .ok () { s with held := s.held.insert label x.index } := by
  change (attempt id (s.external? name) >>= _).run s = _
  rw [run_attempt_bind, external?]
  cases s.registry.external? name <;> rfl

theorem run_decide (s : Session) (call : Call) : (perform (.decide call)).run s =
    match s.catalog.decideInto s.events s.context call with
    | .ok d => .ok () { s with events := d.2 }
    | .error m => .error (.misuse m) s := by
  change (attempt .misuse (s.catalog.decideInto s.events s.context call) >>= _).run s = _
  rw [run_attempt_bind]
  cases s.catalog.decideInto s.events s.context call <;> rfl

/-- Where a reading fails nothing is written, nor where what follows it fails without a write. -/
theorem eq_of_attempt_bind {refuse : ε → Refusal} {x : Except ε α}
    {k : α → EStateM Refusal Session β} (hk : ∀ a s', (k a).run s = .error r s' → s' = s)
    (h : (attempt refuse x >>= k).run s = .error r s') : s' = s := by
  rw [run_attempt_bind] at h
  cases x with
  | ok a => exact hk a s' h
  | error e => exact (EStateM.Result.error.inj h).2.symm

/-- A step that is refused has written nothing by then. -/
theorem eq_of_refused (h : (perform t).run s = .error r s') : s' = s := by
  cases t with
  | external spec => exact eq_of_attempt_bind (fun _ _ hw => by cases hw) h
  | refresh name document =>
    exact eq_of_attempt_bind (fun _ _ => eq_of_attempt_bind fun _ _ hw => by cases hw) h
  | hold name label => exact eq_of_attempt_bind (fun _ _ hw => by cases hw) h
  | decide call => exact eq_of_attempt_bind (fun _ _ hw => by cases hw) h
  | _ => cases h

theorem next_of_refused (h : s.step t = .error r) : s.next t = s := by
  rw [step] at h
  rw [next]
  cases he : (perform t).run s with
  | ok _ s' =>
    rw [he] at h
    cases h
  | error r' s' => exact eq_of_refused he

end

def run (s : Session) (steps : List Step) : Session := steps.foldl next s

/-- The top-level columns of the scope's schema that a view sorts, in schema order, each with
whether it sorts in ascending order only. -/
def sortableColumns (s : Session) (view : SortView) : List (String × Bool) :=
  s.scope.schema.columns.filterMap fun c =>
    if view.supports (.column c.name) .sort then some (c.name, view.ascendingOnly (.column c.name))
    else none

end Session

end Delegation
