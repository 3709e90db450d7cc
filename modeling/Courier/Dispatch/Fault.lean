import Courier.Dispatch.Timer.Basic
/-!
Why a call on the engine did not do what was asked. Each fault has one text; a fault that wraps
another cause names it after a colon.
-/

set_option autoImplicit false

namespace Courier.Dispatch

/-- What makes a configuration invalid. -/
inductive ConfigFault where
  | negativeThreads (n : Int)
  | negativeSpin
  | negativeInterval
deriving DecidableEq, Repr

/-- The text of a configuration fault. -/
def ConfigFault.message : ConfigFault → String
  | .negativeThreads n => "threads must not be negative, got " ++ toString n
  | .negativeSpin => "timer spin threshold must not be negative"
  | .negativeInterval => "rebalance interval must not be negative"

/-- Why a call on the engine failed. -/
inductive Fault where
  /-- The caller stopped waiting before the work was done. -/
  | interrupted
  /-- No worker can take the work: none is live, or the engine is shut down. -/
  | rejected
  | notStarted
  | alreadyStarted
  | shutDown
  | mainBusy
  | invalidConfig (cause : ConfigFault)
  /-- The timer refused a delayed task for a queue. -/
  | scheduleFailed (queue : String) (cause : TimerError)
  /-- A task the caller waited for failed with this value. -/
  | panicked (value : String)
  /-- The call itself failed with this message. -/
  | aborted (message : String)
  /-- A task the caller waited for returned this error. -/
  | failed (message : String)
  | nilTask
  | initFailed (worker : String)
  | partitionCount (n : Int)
  | canceled
deriving Repr

/-- The text of a fault. -/
def Fault.message : Fault → String
  | .interrupted => "wait interrupted: context deadline exceeded"
  | .rejected => "dispatcher rejected work: no live workers"
  | .notStarted => "dispatcher not started"
  | .alreadyStarted => "dispatcher already started"
  | .shutDown => "dispatcher is shut down"
  | .mainBusy => "main queue is already being drained"
  | .invalidConfig c => "invalid dispatcher config: " ++ c.message
  | .scheduleFailed q e => "failed to schedule on " ++ q ++ ": " ++ e.message
  | .panicked v => "task panicked: " ++ v
  | .aborted m => m
  | .failed m => m
  | .nilTask => "nil task"
  | .initFailed w => "failed to init worker " ++ w ++ ": init failed"
  | .partitionCount n => "partition count must be positive, got " ++ toString n
  | .canceled => "context canceled"

end Courier.Dispatch
