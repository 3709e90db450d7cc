import Courier.Dispatch.Partitioned
import Courier.Text.Quoted
/-!
A scripted session with an engine. Queues are named by address: a shared queue by priority, a
live pool worker's own queue, the main queue, or a name given when a serial queue, a context or a
partitioned queue was made (`<name>/<i>` for partition `i`). Tasks write tags to the journal under
the address they were posted through.

After every step of a started engine that is not shut down, the session settles: the pool runs
until idle, then every serial name whose queue is not blocked gets an empty task that is waited
for, in the order the names were made; this repeats while the journal grows, at most six times.
A queue is blocked when it or a serial queue on its chain of targets is suspended, or the chain
reaches the main worker, or runs in a circle. A step's answer carries the journal lines written
during the step and its settling, by address; lines under a shared queue are sorted when more than
one worker may have written them.
-/

set_option autoImplicit false

namespace Courier.Dispatch

/-- Where a queue name points. -/
inductive Address where
  | global (p : Priority)
  | thread (index : Int) (p : Priority)
  | main
  | named (name : String)

/-- The text telling how a worker's queue is named. -/
def threadAddressForm : String := "thread:<index>:<priority>"

/-- Reads a queue name. -/
def Address.parse (s : String) : Except String Address :=
  if s == "main" then .ok .main
  else if s.startsWith "global:" then .ok (.global (Priority.ofText (s.drop 7).toString))
  else if s.startsWith "thread:" then
    match (s.drop 7).toString.splitOn ":" with
    | [i, p] =>
      match i.toInt? with
      | some n => .ok (.thread n (Priority.ofText p))
      | none => .error ("thread alias is " ++ threadAddressForm)
    | _ => .error ("thread alias is " ++ threadAddressForm)
  else .ok (.named s)

/-- A step of a session. -/
inductive Step where
  | start
  | shutdown
  | stats
  | workers
  | serial (name label : String) (prio : Option Priority) (options : QueueOptions)
  | info (q : String)
  | async (q tag : String) (fails : Bool)
  | asyncNil (q : String)
  | sync (q tag : String) (fails nilTask : Bool)
  | apply (q : String) (n : Int) (tag : String) (failAt : List Nat) (nilFn : Bool)
  | after (q : String) (delay : Int) (nilTask : Bool)
  | schedule (delay : Int) (nilTask : Bool)
  | suspend (q : String)
  | resume (q : String)
  | retain (q : String)
  | release (q : String)
  | disposer (q : String) (tag : Option String)
  | target (q : String) (onto : Option String)
  | register (name label : String) (options : QueueOptions) (nilFn : Bool) (source : Option String)
  | request (ctx : String)
  | ctxAsync (ctx tag : String)
  | relay (source dest : String)
  | relayAsync (source q tag : String)
  | close (ctx : String)
  | owner (ctx : String)
  | partitioned (name : String) (n : Int) (label : String) (options : QueueOptions)
  | partition (pq : String) (keys : List String)
  | partAsync (pq key tag : String)
  | partSync (pq key tag : String)
  | actor (name q : String)
  | tell (actor : String) (amount : Int64)
  | ask (actor : String) (amount : Int64) (refuses fails : Bool)
  | drainMain

/-- What a queue looks like from outside. -/
structure QueueInfo where
  label : String
  kind : String
  priority : String
  suspended : Bool
  target : Option String
  length : Option Int

/-- The engine's counters as a session reports them. -/
structure StatsView where
  taskPanics : Nat
  liveWorkers : Int
  size : Nat
  migrations : Nat
  fatalExits : Nat
  /-- Moves and the running flag of a balancer that is not inert. -/
  balancer : Option (Nat × Bool)

/-- What a step answers. -/
inductive Reply where
  | none
  | count (n : Nat)
  | flag (b : Bool)
  | text (s : String)
  | texts (xs : List String)
  | stats (s : StatsView)
  | workers (ws : List (String × Nat))
  | queue (info : QueueInfo)
  | ran (queue : Option String) (context : Option String) (onWorker : Bool)
  | registered (label owner target : String)
  | ownership (owner target : String) (closed : Bool)
  | partitioned (label : String) (parts : List String)

/-- Why a step gave no reply: the engine refused, or the step itself was malformed. -/
inductive Refusal where
  | fault (f : Fault)
  | badInput (message : String)

/-- An actor: a counter owned by a queue, with the address its lines are written under. -/
structure Actor where
  cell : Nat
  queue : QueueRef
  channel : String

/-- A session: the engine and the names given in it. -/
structure Session where
  engine : Engine
  /-- Serial queue names, in the order they were given. -/
  names : List (String × QueueRef)
  contexts : List (String × Nat)
  partitionedQueues : List (String × Partitioned)
  actors : List (String × Actor)
  everStarted : Bool

/-- The answer to a step: the reply, and the journal lines of the step by address. -/
structure Answer where
  reply : Except Refusal Reply
  lines : List (String × List String)

/-- The last entry of a name in an association list. -/
def lookupLast {β : Type} (xs : List (String × β)) (k : String) : Option β :=
  xs.foldl (fun acc (n, v) => if n == k then some v else acc) none

/-- A name in quotes, for messages. -/
def quoteName (s : String) : String := Text.Quoted.quoteBytes s.toUTF8.toList

namespace Engine

/-- Whether a queue cannot get its work run by the pool: suspended on the way, bound to the main
worker, or caught in a circle of targets. -/
def blocked (e : Engine) (q : QueueRef) : Bool :=
  go (e.serials.size + 1) q
where
  go : Nat → QueueRef → Bool
    | _, .global _ => false
    | _, .thread .main _ => true
    | _, .thread (.pool _) _ => false
    | 0, .serial _ => true
    | n + 1, .serial id =>
      id == e.mainQueue || e.queueSuspended (.serial id) ||
        match e.queueTarget (.serial id) with
        | some t => go n t
        | none => true

/-- A queue as seen from outside. -/
def info (e : Engine) (q : QueueRef) : QueueInfo :=
  match q with
  | .serial id =>
    match e.serials[id]? with
    | some s => ⟨s.label, "serial", s.prio.label, decide (0 < s.suspended), some (e.queueLabel s.target), some s.size⟩
    | none => ⟨"", "serial", "", false, none, none⟩
  | .global p => ⟨e.queueLabel q, "global", p.label, false, none, none⟩
  | .thread _ p => ⟨e.queueLabel q, "thread", p.label, false, none, none⟩

end Engine

namespace Session

/-- A session with an engine that has not started. -/
def create (e : Engine) : Session := ⟨e, [], [], [], [], false⟩

/-- Continues with a resolved value; a refusal leaves the session as it was. -/
def given {α : Type} (s : Session) (r : Except Refusal α) (k : α → Except Refusal Reply × Session) :
    Except Refusal Reply × Session :=
  match r with
  | .ok a => k a
  | .error f => (.error f, s)

/-- The queue a name points to. -/
def queue (s : Session) (name : String) : Except Refusal QueueRef :=
  match Address.parse name with
  | .error m => .error (.badInput m)
  | .ok (.global p) => .ok (.global p)
  | .ok (.thread n p) =>
    if 0 ≤ n && s.engine.live.contains n.toNat then .ok (.thread (.pool n.toNat) p)
    else .error (.badInput ("no live worker " ++ toString n))
  | .ok .main => .ok (.serial s.engine.mainQueue)
  | .ok (.named n) =>
    match lookupLast s.names n with
    | some q => .ok q
    | none => .error (.badInput ("unknown queue " ++ quoteName n))

/-- The context a name points to. -/
def context (s : Session) (name : String) : Except Refusal Nat :=
  match lookupLast s.contexts name with
  | some c => .ok c
  | none => .error (.badInput ("unknown context " ++ quoteName name))

/-- The serial queue of a context. -/
def contextQueue (s : Session) (c : Nat) : QueueRef :=
  .serial ((s.engine.contexts[c]?.map Context.queue).getD 0)

/-- The partitioned queue a name points to. -/
def partitionedQueue (s : Session) (name : String) : Except Refusal Partitioned :=
  match lookupLast s.partitionedQueues name with
  | some pq => .ok pq
  | none => .error (.badInput ("unknown partitioned queue " ++ quoteName name))

/-- The actor a name points to. -/
def actor (s : Session) (name : String) : Except Refusal Actor :=
  match lookupLast s.actors name with
  | some a => .ok a
  | none => .error (.badInput ("unknown actor " ++ quoteName name))

/-- A task that writes a tag and then, if asked, fails with `boom:<tag>`. -/
def logTask (channel tag : String) (fails : Bool) : Task :=
  if fails then .seq (.log channel tag) (.fail ("boom:" ++ tag)) else .log channel tag

/-- Replaces the engine. -/
def setEngine (s : Session) (e : Engine) : Session := { s with engine := e }

/-- Turns an engine outcome into a reply. -/
def finish {α : Type} (s : Session) (r : Except Fault α × Engine) (f : α → Reply) :
    Except Refusal Reply × Session :=
  match r with
  | (.ok a, e) => (.ok (f a), s.setEngine e)
  | (.error x, e) => (.error (.fault x), s.setEngine e)

/-- The reply of a change to a queue's suspension or holds: whether it is suspended now. -/
def suspendedAfter (s : Session) (q : QueueRef) (r : Except Fault Unit × Engine) :
    Except Refusal Reply × Session :=
  s.finish r fun _ => .flag (r.2.queueSuspended q)

/-- The reply describing a context. -/
def contextReply (e : Engine) (c : Nat) : Reply :=
  match e.contexts[c]? with
  | some ctx => .registered ctx.label (e.workerName (.pool ctx.owner))
      (((e.queueTarget (.serial ctx.queue)).map e.queueLabel).getD "")
  | none => .none

/-- Adds a registered context under a name. -/
def addContext (s : Session) (name : String) (c : Nat) : Session :=
  { s with
    contexts := s.contexts ++ [(name, c)]
    names := s.names ++ [(name, s.contextQueue c)] }

/-- The reply of a sync: where its task ran. -/
def ranReply (e : Engine) (slot : Nat) : Reply :=
  match (e.waits[slot]?).bind Wait.seen with
  | some sc =>
    .ran (sc.queue.map e.queueLabel) (sc.pooled.bind fun c => (e.contexts[c]?).map Context.label)
      sc.worker.isSome
  | none => .none

/-- Applies a step to a serial queue; other queues take no notice. -/
def onSerial (s : Session) (q : QueueRef) (f : Nat → Except Fault Unit × Engine) :
    Except Refusal Reply × Session :=
  match q with
  | .serial id => s.suspendedAfter q (f id)
  | _ => (.ok (.flag false), s)

/-- Applies a step, without settling. -/
def apply (s : Session) (step : Step) : Except Refusal Reply × Session :=
  let e := s.engine
  match step with
  | .start =>
    match e.start with
    | (.ok n, e) => (.ok (.count n), { s with engine := e, everStarted := true })
    | (.error f, e) => (.error (.fault f), s.setEngine e)
  | .shutdown => s.finish e.stop .count
  | .stats =>
    (.ok (.stats ⟨e.counters.taskPanics, e.counters.liveWorkers, e.live.length, e.counters.migrations,
      e.counters.fatalExits,
      if e.balancer.enabled then some (e.balancer.migrations, e.balancer.running) else none⟩), s)
  | .workers => (.ok (.workers (e.live.map fun i => (e.workerName (.pool i), i))), s)
  | .serial name label prio options =>
    let (id, e) := e.createSerial label (prio.getD .normal) options
    (.ok (.queue (e.info (.serial id))), { s with engine := e, names := s.names ++ [(name, .serial id)] })
  | .info q => s.given (s.queue q) fun r => (.ok (.queue (e.info r)), s)
  | .async q tag fails =>
    s.given (s.queue q) fun r => (.ok .none, s.setEngine (e.dispatchAsync Scope.outside r (logTask q tag fails)))
  | .asyncNil q => s.given (s.queue q) fun _ => (.ok .none, s)
  | .sync q tag fails nilTask =>
    s.given (s.queue q) fun r =>
      if nilTask then (.error (.fault .nilTask), s)
      else
        let (out, e) := e.runGroup Scope.outside r 1 fun slot _ => .seq (.probe slot) (logTask q tag fails)
        s.finish (out, e) (ranReply e)
  | .apply q n tag failAt nilFn =>
    s.given (s.queue q) fun r =>
      if nilFn then (.error (.fault .nilTask), s)
      else if n ≤ 0 then (.ok .none, s)
      else
        s.finish (e.runGroup Scope.outside r n.toNat fun _ i =>
          let t := Task.log q (tag ++ ":" ++ toString i)
          if failAt.contains i then .seq t (.fail ("boom:" ++ toString i)) else t) fun _ => .none
  | .after q delay nilTask =>
    s.given (s.queue q) fun r =>
      if nilTask then (.error (.fault .nilTask), s)
      else s.finish (e.dispatchAfter r .noop delay) fun _ => .none
  | .schedule delay nilTask =>
    if nilTask then (.error (.fault .nilTask), s)
    else s.finish (e.schedule Scope.outside .noop delay) fun _ => .none
  | .suspend q => s.given (s.queue q) fun r => s.onSerial r fun id => (.ok (), e.suspend id)
  | .resume q => s.given (s.queue q) fun r => s.onSerial r e.resume
  | .retain q => s.given (s.queue q) fun r => s.onSerial r e.retain
  | .release q => s.given (s.queue q) fun r => s.onSerial r e.release
  | .disposer q tag =>
    s.given (s.queue q) fun r =>
      match r with
      | .serial id => (.ok .none, s.setEngine (e.setDisposer id (tag.map (.log q))))
      | _ => (.error (.badInput "not a serial queue"), s)
  | .target q onto =>
    s.given (s.queue q) fun r =>
      s.given (match onto with
        | some t => (s.queue t).map some
        | none => .ok none) fun tq =>
        match r with
        | .serial id =>
          let (out, e) := e.setTarget id tq
          s.finish (out, e) fun _ =>
            match e.queueTarget r with
            | some t => .text (e.queueLabel t)
            | none => .none
        | _ => (.ok .none, s)
  | .register name label options nilFn source =>
    let fn : Option Task := if nilFn then none else some (.log name "run")
    match source with
    | none =>
      match e.register Scope.outside label fn options with
      | (.ok c, e) => (.ok (contextReply e c), (s.setEngine e).addContext name c)
      | (.error f, e) => (.error (.fault f), s.setEngine e)
    | some src =>
      s.given (s.context src) fun c =>
        match e.runGroup Scope.outside (s.contextQueue c) 1 (fun slot _ => .register slot label fn options) with
        | (.error f, e) => (.error (.fault f), s.setEngine e)
        | (.ok slot, e) =>
          match (e.waits[slot]?).bind Wait.made with
          | some (.ok c') => (.ok (contextReply e c'), (s.setEngine e).addContext name c')
          | some (.error f) => (.error (.fault f), s.setEngine e)
          | none => (.error (.fault .interrupted), s.setEngine e)
  | .request ctx =>
    s.given (s.context ctx) fun c => (.ok .none, s.setEngine (e.requestDispatch Scope.outside c))
  | .ctxAsync ctx tag =>
    s.given (s.context ctx) fun c =>
      (.ok .none, s.setEngine (e.dispatchAsync Scope.outside (s.contextQueue c) (.log ctx tag)))
  | .relay source dest =>
    s.given (s.context source) fun c =>
      s.given (s.context dest) fun d =>
        (.ok .none, s.setEngine (e.dispatchAsync Scope.outside (s.contextQueue c)
          (.seq (.log source ("relay>" ++ dest)) (.request d))))
  | .relayAsync source q tag =>
    s.given (s.context source) fun c =>
      s.given (s.queue q) fun r =>
        (.ok .none, s.setEngine (e.dispatchAsync Scope.outside (s.contextQueue c)
          (.seq (.log source ("post>" ++ q)) (.post r (.log q tag)))))
  | .close ctx =>
    s.given (s.context ctx) fun c =>
      s.finish (e.closeContext c) fun _ => .flag true
  | .owner ctx =>
    s.given (s.context ctx) fun c =>
      match e.contexts[c]? with
      | some x =>
        (.ok (.ownership (e.workerName (.pool x.owner))
          (((e.queueTarget (.serial x.queue)).map e.queueLabel).getD "") x.closed), s)
      | none => (.ok .none, s)
  | .partitioned name n label options =>
    match e.createPartitioned label n options with
    | (.ok pq, e) =>
      let parts := pq.parts.zipIdx.map fun ((_, id), i) => (name ++ "/" ++ toString i, QueueRef.serial id)
      (.ok (.partitioned pq.label (pq.parts.map Prod.fst)),
        { s with engine := e, names := s.names ++ parts, partitionedQueues := s.partitionedQueues ++ [(name, pq)] })
    | (.error f, e) => (.error (.fault f), s.setEngine e)
  | .partition pq keys =>
    s.given (s.partitionedQueue pq) fun p =>
      (.ok (.texts (keys.map fun k => ((p.partition k).map e.serialLabel).getD "")), s)
  | .partAsync pq key tag =>
    s.given (s.partitionedQueue pq) fun p =>
      match p.indexOf key, p.partition key with
      | some i, some id =>
        let member := pq ++ "/" ++ toString i
        (.ok (.text member), s.setEngine (e.dispatchAsync Scope.outside (.serial id) (.log member tag)))
      | _, _ => (.ok .none, s)
  | .partSync pq key tag =>
    s.given (s.partitionedQueue pq) fun p =>
      match p.indexOf key, p.partition key with
      | some i, some id =>
        let member := pq ++ "/" ++ toString i
        s.finish (e.runGroup Scope.outside (.serial id) 1 fun _ _ => .log member tag) fun _ => .text member
      | _, _ => (.ok .none, s)
  | .actor name q =>
    s.given (s.queue q) fun r =>
      let (cell, e) := e.newCell
      (.ok (.text (e.queueLabel r)), { s with engine := e, actors := s.actors ++ [(name, ⟨cell, r, q⟩)] })
  | .tell name amount =>
    s.given (s.actor name) fun a =>
      (.ok .none, s.setEngine (e.dispatchAsync Scope.outside a.queue
        (.seq (.add a.cell amount) (.log a.channel (name ++ "+=" ++ toString amount.toInt)))))
  | .ask name amount refuses fails =>
    s.given (s.actor name) fun a =>
      let t : Task := .seq (.add a.cell amount) (.log a.channel (name ++ "?" ++ toString amount.toInt))
      let t := if fails then .seq t (.fail "actor boom") else t
      match e.runGroup Scope.outside a.queue 1 (fun _ _ => t) with
      | (.error f, e) => (.error (.fault f), s.setEngine e)
      | (.ok _, e) =>
        if refuses then (.error (.fault (.failed "actor refused")), s.setEngine e)
        else (.ok (.text (toString ((e.cells[a.cell]?).getD 0).toInt)), s.setEngine e)
  | .drainMain =>
    if e.queueSuspended (.serial e.mainQueue) then (.error (.badInput "main queue suspended"), s)
    else
      let (slot, e) := e.openWait 0
      let e := e.dispatchAsync Scope.outside (.serial e.mainQueue) (.cancel slot)
      s.finish (e.dispatchMain slot) fun _ => .none

/-- Settles for at most `n` rounds. -/
def settleFor : Nat → Session → Session
  | 0, s => s
  | n + 1, s =>
    let before := s.engine.journal.size
    let e := s.engine.runPool
    let e := s.names.foldl (fun e (_, q) =>
      if e.blocked q then e else (e.runGroup Scope.outside q 1 fun _ _ => .noop).2) e
    let s := s.setEngine e
    if e.journal.size == before then s else settleFor n s

/-- Settles after a step, while the engine runs. -/
def settle (s : Session) : Session :=
  if s.everStarted && !s.engine.shutdown then settleFor 6 s else s

/-- Journal lines grouped by address in order of first appearance; lines under a shared queue
are sorted when `sorted` is set. -/
def groupLines (sorted : Bool) (entries : List (String × String)) : List (String × List String) :=
  let groups := entries.foldl (fun (acc : List (String × List String)) (ch, line) =>
    if acc.any (·.1 == ch) then acc.map fun (c, ls) => if c == ch then (c, ls ++ [line]) else (c, ls)
    else acc ++ [(ch, [line])]) []
  groups.map fun (ch, ls) =>
    if sorted && ch.startsWith "global:" then (ch, ls.mergeSort fun a b => compare a b != .gt) else (ch, ls)

/-- Applies a step and settles; answers with the reply and the journal lines of the step. -/
def step (s : Session) (st : Step) : Answer × Session :=
  let mark := s.engine.journal.size
  let (reply, s) := s.apply st
  let s := s.settle
  (⟨reply, groupLines (1 < s.engine.threads) (s.engine.journal.toList.drop mark)⟩, s)

end Session

end Courier.Dispatch
