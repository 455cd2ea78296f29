/-
A session: the store, the work under way, and the embedding program.

The program submits requests. Work on a request stops when a client is to be
called; the program then calls the client, which may submit further requests,
and resumes. Each request is answered once.
-/
import VectorEngine.Command
import VectorEngine.Expression.Evaluate

namespace VectorEngine

/-- Everything that can be asked of the engine, apart from looking at it. -/
inductive Request
  | create (name? : Option String)
  | destroy (id : VectorId)
  /-- Destroy every vector, those of lower rank first and those of one rank by
  name. -/
  | clear (rank : VectorId → Nat)
  /-- Change the contents of a vector and tell nobody. -/
  | edit (id : VectorId) (change : Series → Except Error Series)
  | update (id : VectorId) (change : Series → Except Error Series)
  | readExtrema (id : VectorId)
  | markDirty (id : VectorId)
  | setPolicy (id : VectorId) (policy : NotifyPolicy)
  | notifyNow (id : VectorId)
  | cancelNotify (id : VectorId)
  /-- Flush every vector with a flush pending. -/
  | runIdle
  | registerClient (id : VectorId) (listens : Bool)
  | releaseClient (client : ClientId)
  | registerFunction (name : String) (function : MathFunction)
  | unregisterFunction (name : String)
  | registerAggregate (name : String) (aggregate : Aggregate)
  | applyFunction (function : MathFunction) (values : List Float)
  | evaluate (source : String)
  | evaluateParsed (expression : Expression)
  /-- Evaluate an expression and keep the values in a vector. -/
  | assign (id : VectorId) (source : String)
  | dup (source target : VectorId)
  | merge (target : VectorId) (sources : List VectorId)
  | split (source : VectorId) (targets : List VectorId)
  | normalize (id : VectorId) (target? : Option VectorId)
  | populate (target source : VectorId) (density : Nat)
  | sort (keys companions : List VectorId) (options : SortOptions)
  | spectrum (source : VectorId) (outputs : SpectrumOutputs VectorId) (options : SpectrumOptions Float)
  | signal (real : VectorId) (imag? : Option VectorId) (targetReal : VectorId) (targetImag? : Option VectorId)
      (includesConstant : Bool)
  | command (c : Command)

structure Session where
  store : Store
  host : Host
  traces : Traces
  /-- The work under way, the innermost first. -/
  stack : List Task := []

namespace Session

/-- A session with an empty store. -/
def ofConfig (config : StoreConfig) (host : Host) (random : RandomSource) : Except Error Session := do
  return { store := ← Store.ofConfig config, host, traces := { generator := { word := random config.seed } } }

/-- Puts tasks in front of the work under way. -/
def put (s : Session) (store : Store) (tasks : List Task) : Session :=
  { s with store := store, stack := tasks ++ s.stack }

def fail (s : Session) (e : Error) : Session := s.put s.store [.refuse e]

def finish (s : Session) (a : Answer) : Session := s.put s.store [.answer a]

/-- Begins work, unless it has failed, which leaves the store as it was. -/
def begin (s : Session) (begun : Except Error (Store × List Task)) : Session :=
  match begun with
  | .ok (store, tasks) => s.put store tasks
  | .error e => s.fail e

/-- Begins a fan-out, if there is one, and goes on with `tasks`. -/
def beginDelivery (s : Session) (tasks : List Task) (begun : Except Error (Store × Option Delivery)) : Session :=
  s.begin (begun.map fun (store, d?) => (store, Task.delivering d? tasks))

/-- What expressions are evaluated against. -/
def scope (s : Session) : Scope where
  vector? name := (s.store.vector? name).map (·.series)
  aggregates := s.store.aggregates
  host := s.host

/-- Evaluates a parsed expression. -/
def evaluateParsed (s : Session) (e : Expression) : Session × Except Error (List Float) :=
  let (result, traces) := e.evaluate s.scope s.traces
  ({ s with traces := traces }, result)

/-- Evaluates the expression a text is. -/
def evaluate (s : Session) (source : String) : Session × Except Error (List Float) :=
  match Expression.parse source s.store.functions with
  | .ok e => s.evaluateParsed e
  | .error e => (s, .error e)

/-- Evaluates an expression and goes on with its values. -/
def evaluating (s : Session) (source : String) (next : Session → List Float → Session) : Session :=
  match s.evaluate source with
  | (s, .ok values) => next s values
  | (s, .error e) => s.fail e

/-- Evaluates an expression and keeps the values in a vector. -/
def assign (s : Session) (id : VectorId) (source : String) (tasks : List Task) : Session :=
  match s.store.get id with
  | .error e => s.fail e
  | .ok _ =>
    s.evaluating source fun s values => s.begin (s.store.updating id (Series.setValues values) tasks)

/-- Begins a command. -/
def execute (s : Session) : Command → Session
  | .create name? length? =>
    match s.store.createWithLength name? length? with
    | (store, .ok tasks) => s.put store tasks
    | (store, .error e) => { s with store := store }.fail e
  | .expression none source => s.evaluating source fun s values => s.finish (.reply (.list values))
  | .expression (some target) source =>
    match s.store.lookup target with
    | .ok id => s.assign id source Store.quietly
    | .error e => s.fail e
  | c => s.begin (s.store.begin c)

/-- The vectors of the store by rank, those of one rank by name. -/
def ranked (s : Session) (rank : VectorId → Nat) : List VectorId :=
  (s.store.names.entries.map (·.2)).mergeSort fun a b => rank a ≤ rank b

/-- Begins a request: what it does at once, and the work it puts in front. -/
def issue (s : Session) : Request → Session
  | .create name? =>
    match s.store.create name? with
    | (store, .ok id) => { s with store := store }.finish (.vector id)
    | (store, .error e) => { s with store := store }.fail e
  | .destroy id => s.beginDelivery [.answer .done] (s.store.beginDestroy id)
  | .clear rank => s.put s.store [.destroyAll (s.ranked rank), .answer .done]
  | .edit id change => s.begin ((s.store.edit id change).map fun store => (store, [.answer .done]))
  | .update id change => s.beginDelivery [.answer .done] (s.store.update id change)
  | .readExtrema id => s.begin ((s.store.readExtrema id).map fun (e, store) => (store, [.answer (.extrema e)]))
  | .markDirty id => s.beginDelivery [.answer .done] (s.store.markDirty id)
  | .setPolicy id policy => s.begin ((s.store.setPolicy id policy).map fun store => (store, [.answer .done]))
  | .notifyNow id => s.beginDelivery [.answerReached] (s.store.notifyNow id)
  | .cancelNotify id =>
    s.begin ((s.store.cancelNotify id).map fun (store, pending) => (store, [.answer (.flag pending)]))
  | .runIdle => s.put { s.store with queue := [] } [.idlePass s.store.queue 0]
  | .registerClient id listens =>
    match s.store.registerClient id listens with
    | (store, .ok c) => { s with store := store }.finish (.client c)
    | (store, .error e) => { s with store := store }.fail e
  | .releaseClient client =>
    let (store, released) := s.store.releaseClient client
    { s with store := store }.finish (.flag released)
  | .registerFunction name function =>
    { s with store.functions := s.store.functions.insert name function }.finish .done
  | .unregisterFunction name => { s with store.functions := s.store.functions.erase name }.finish .done
  | .registerAggregate name aggregate =>
    { s with store.aggregates := s.store.aggregates.insert name aggregate }.finish .done
  | .applyFunction function values =>
    let (result, generator) := function.apply values s.traces.generator
    let s := { s with traces.generator := generator }
    match result with
    | .ok values => s.finish (.values values)
    | .error e => s.fail e
  | .evaluate source => s.evaluating source fun s values => s.finish (.values values)
  | .evaluateParsed e =>
    match s.evaluateParsed e with
    | (s, .ok values) => s.finish (.values values)
    | (s, .error e) => s.fail e
  | .assign id source => s.assign id source [.answer .done]
  | .dup source target => s.begin (s.store.dup source target [.answer .done])
  | .merge target sources => s.begin (s.store.merge target sources [.answer .done])
  | .split source targets => s.begin (s.store.split source targets [.answer .done])
  | .normalize id target? => s.begin (s.store.normalize id target? [.answer .done])
  | .populate target source density => s.begin (s.store.populate target source density [.answer .done])
  | .sort keys companions options =>
    s.begin (s.store.sort keys companions options fun rows => [.answer (.order rows)])
  | .spectrum source outputs options =>
    s.begin (s.store.spectrum source outputs options fun padded => [.answer (.count padded)])
  | .signal real imag? targetReal targetImag? includesConstant =>
    s.begin (s.store.signal real imag? targetReal targetImag? includesConstant [.answer .done])
  | .command c => s.execute c

/-- Works on the innermost task. Without a signal there is more to do. -/
def tick (s : Session) : Session × Option Signal :=
  let (store, stack, signal?) := s.store.tick s.stack
  ({ s with store := store, stack := stack }, signal?)

/-- Works up to the next stop; goes on, that is, after a client's call has
returned. -/
def resume (s : Session) : Session × Signal :=
  let (store, stack, signal) := s.store.advance s.stack
  ({ s with store := store, stack := stack }, signal)

/-- Submits a request: works on it until a client is to be called or it is
answered. -/
def submit (s : Session) (r : Request) : Session × Signal := (s.issue r).resume

end Session
end VectorEngine
