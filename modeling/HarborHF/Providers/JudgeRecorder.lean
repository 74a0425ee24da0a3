import Mathlib.Data.List.Sort
import Mathlib.Tactic.Common
import HarborHF.Relational.Dict

/-!
# The judge recorder

`JudgeEvidenceRecorder` forwards the judge requests of a scope and records each exchange. A thread that
handles a request finds the scope, registers its call as active, reads and checks the request, allocates
the number of the exchange, forwards it, records it and finishes the call, each in a step of its own.
`revoke_scope` takes the scope away, waits until no call is active and fixes the counts, and
`assemble_trial_evidence` compares what was recorded with them.
-/

set_option autoImplicit false

namespace HarborHF.Providers

open Relational

/-- What `_handle` makes of a body: the size, the secrets, the JSON, the fields and
`_enforce_request_parameters`. -/
class JudgeWire (Body : Type) where
  Forwarded : Type
  enforce : Body → Except String Forwarded

open JudgeWire (Forwarded)

/-- The most calls of a scope, as `register_scope` checks them. -/
structure JudgeScope where
  maxCalls : ℕ
  maxCalls_pos : 1 ≤ maxCalls
  maxCalls_le : maxCalls ≤ 4096

/-- How an exchange ended. -/
inductive Outcome
  | success
  | upstreamError
  | transportError
  | recorderError
  deriving DecidableEq

/-- What `_upstream` and the scans of the response end in, and whether the request was sent. -/
inductive Answer
  /-- A response that is within its size and free of secrets. -/
  | response (successful : Bool)
  /-- A deadline that has expired, a response too large or with a secret. -/
  | refused (sent : Bool)
  | transport (sent : Bool)
  /-- An exception that `_handle` does not catch. -/
  | escaped (sent : Bool)

def Answer.sent : Answer → Bool
  | .response _ => true
  | .refused sent => sent
  | .transport sent => sent
  | .escaped sent => sent

/-- A directory `judge-NNNN` with its record. -/
structure Exchange (Forwarded : Type) where
  attempt : ℕ
  forwarded : Forwarded
  outcome : Outcome
  deriving DecidableEq

/-- A request on its way upstream, and whether `revoke_scope` had returned before. -/
structure Sent (Forwarded : Type) where
  attempt : ℕ
  forwarded : Forwarded
  late : Bool
  deriving DecidableEq

/-- Where a thread is with its request. -/
inductive Call (Body Forwarded : Type)
  | received (body : Body)
  | found (body : Body)
  | begun (body : Body)
  | accepted (forwarded : Forwarded)
  | allocated (attempt : ℕ) (forwarded : Forwarded)
  | answered (attempt : ℕ) (forwarded : Forwarded) (outcome : Outcome)
  | recorded (attempt : ℕ) (forwarded : Forwarded)
  | failed (attempt : ℕ) (forwarded : Forwarded) (outcome : Outcome)
  | rejected
  | ending
  | finished
  deriving DecidableEq

/-- A call that `_begin_call` has registered and `_finish_call` has not. -/
def Call.isActive {Body Forwarded : Type} : Call Body Forwarded → Bool
  | .received _ => false
  | .found _ => false
  | .finished => false
  | _ => true

/-- A call inside the `try` of `_handle` or of `_handle_failure`, which some exceptions leave. -/
def Call.isTried {Body Forwarded : Type} : Call Body Forwarded → Bool
  | .begun _ => true
  | .accepted _ => true
  | .allocated _ _ => true
  | .answered _ _ _ => true
  | .recorded _ _ => true
  | .failed _ _ _ => true
  | _ => false

/-- Where `revoke_scope` is. -/
inductive Revocation
  | idle
  | waiting
  | counted
  | returned
  | raised
  deriving DecidableEq

/-- Where `assemble_trial_evidence` is. -/
inductive Assembly (Forwarded : Type)
  | pending
  | refused
  | accepted (exchanges : List (Exchange Forwarded))
  deriving DecidableEq

/-- What a scope is closed with. -/
structure RecorderSummary where
  exchangeCount : ℕ
  rejectedCallCount : ℕ
  deriving DecidableEq

/-- The entries of a scope in the recorder, the threads of its requests, its directory, and what was
sent upstream. The numbers are those of its execution in the dictionaries of the recorder. -/
structure Recorder (Body Forwarded : Type) where
  registered : Bool
  counts : Option ℕ
  rejections : Option ℕ
  activeCalls : Option ℕ
  threads : Dict ℕ (Call Body Forwarded)
  exchanges : List (Exchange Forwarded)
  summary : Option RecorderSummary
  revocation : Revocation
  assembly : Assembly Forwarded
  sent : List (Sent Forwarded)
  deriving DecidableEq

/-- A scope that `register_scope` has just registered. -/
def Recorder.initial (Body Forwarded : Type) : Recorder Body Forwarded where
  registered := true
  counts := some 0
  rejections := some 0
  activeCalls := some 0
  threads := []
  exchanges := []
  summary := none
  revocation := .idle
  assembly := .pending
  sent := []

section Steps

variable {Body Forwarded : Type}

def Recorder.move (recorder : Recorder Body Forwarded) (thread : ℕ) (call : Call Body Forwarded) :
    Recorder Body Forwarded :=
  { recorder with threads := recorder.threads.set thread call }

/-- `_begin_call`. -/
def Recorder.beginCall (recorder : Recorder Body Forwarded) : Recorder Body Forwarded :=
  { recorder with activeCalls := some (recorder.activeCalls.getD 0 + 1) }

/-- `_finish_call`. -/
def Recorder.finishCall (recorder : Recorder Body Forwarded) : Recorder Body Forwarded :=
  { recorder with activeCalls := some (recorder.activeCalls.getD 0 - 1) }

/-- `_record_rejection`. -/
def Recorder.recordRejection (recorder : Recorder Body Forwarded) : Recorder Body Forwarded :=
  { recorder with rejections := some (recorder.rejections.getD 0 + 1) }

/-- `_allocate`. -/
def Recorder.allocate (scope : JudgeScope) (recorder : Recorder Body Forwarded) :
    Option (ℕ × Recorder Body Forwarded) :=
  let attempt := recorder.counts.getD 0 + 1
  if attempt > scope.maxCalls then none
  else some (attempt, { recorder with counts := some attempt })

/-- `_upstream` sends the request. -/
def Recorder.send (attempt : ℕ) (forwarded : Forwarded) (answer : Answer)
    (recorder : Recorder Body Forwarded) : Recorder Body Forwarded :=
  if answer.sent then
    { recorder with
      sent := recorder.sent ++
        [{ attempt := attempt
           forwarded := forwarded
           late := decide (recorder.revocation = .returned) }] }
  else recorder

/-- `_write_exchange`, when its writes and its scan for secrets succeed. -/
def Recorder.writeExchange (exchange : Exchange Forwarded) (recorder : Recorder Body Forwarded) :
    Option (Recorder Body Forwarded) :=
  if exchange.attempt ∈ recorder.exchanges.map Exchange.attempt then none
  else some { recorder with exchanges := recorder.exchanges ++ [exchange] }

/-- The end of the critical section of `revoke_scope`, and what its summary will say. -/
def Recorder.close (recorder : Recorder Body Forwarded) : Recorder Body Forwarded :=
  { recorder with
    activeCalls := none
    counts := none
    rejections := none
    revocation := .counted
    summary := some ⟨recorder.counts.getD 0, recorder.rejections.getD 0⟩ }

/-- The loop of `revoke_scope`, when the deadline has not passed. -/
def Recorder.awaitIdle (recorder : Recorder Body Forwarded) : Recorder Body Forwarded :=
  if recorder.activeCalls.getD 0 ≠ 0 then { recorder with revocation := .waiting }
  else recorder.close

/-- The exchanges in the order of their names, which is that of their numbers. -/
def sortedExchanges (exchanges : List (Exchange Forwarded)) : List (Exchange Forwarded) :=
  exchanges.insertionSort fun first second ↦ first.attempt ≤ second.attempt

/-- `_collect_judge_evidence` for a scope of the same execution, trial and model, whose directory
`register_scope` has made. -/
def collectJudgeEvidence (judgeExpected : Bool) (summary : Option RecorderSummary)
    (exchanges : List (Exchange Forwarded)) : Except String (List (Exchange Forwarded)) :=
  if !judgeExpected then
    if exchanges ≠ [] then .error "judge evidence exists for deterministic task"
    else .error "judge recorder exists for deterministic task"
  else
    match summary with
    | none => .error "judge recorder summary is invalid"
    | some summary =>
      if summary.rejectedCallCount ≠ 0 then .error "judge recorder rejected one or more calls"
      else if summary.exchangeCount ≠ exchanges.length then
        .error "judge recorder exchange count mismatch"
      else if exchanges.any fun exchange ↦ exchange.outcome ≠ .success then
        .error "judge exchange did not complete successfully"
      else .ok (sortedExchanges exchanges)

/-- `assemble_trial_evidence`, which moves the directory of the scope; `others` says whether it accepts
everything else. -/
def Recorder.assemble (judgeExpected others : Bool) (recorder : Recorder Body Forwarded) :
    Recorder Body Forwarded :=
  { recorder with
    exchanges := []
    summary := none
    assembly :=
      match collectJudgeEvidence judgeExpected recorder.summary recorder.exchanges with
      | .error _ => .refused
      | .ok exchanges => if others then .accepted exchanges else .refused }

end Steps

/-! ### Interleavings -/

/-- What a thread, the caller of `revoke_scope` or the one of `assemble_trial_evidence` does next. -/
inductive JudgeEvent (Body : Type)
  | receive (thread : ℕ) (body : Body)
  | lookUp (thread : ℕ)
  | beginCall (thread : ℕ)
  | read (thread : ℕ)
  | allocate (thread : ℕ)
  | forward (thread : ℕ) (answer : Answer)
  | write (thread : ℕ) (stored : Bool)
  | deliver (thread : ℕ) (delivered : Bool)
  | writeFailure (thread : ℕ) (stored : Bool)
  | recordRejection (thread : ℕ)
  | escape (thread : ℕ)
  | finishCall (thread : ℕ)
  | revoke
  | wake
  | timeOut
  | writeSummary (stored : Bool)
  | assemble (judgeExpected others : Bool)

variable {Body : Type} [JudgeWire Body]

/-- One step of the threads and of the callers of the recorder. -/
def Recorder.step (scope : JudgeScope) (recorder : Recorder Body (Forwarded Body)) :
    JudgeEvent Body → Option (Recorder Body (Forwarded Body))
  | .receive thread body =>
    match recorder.threads.get? thread with
    | none => some (recorder.move thread (.received body))
    | some _ => none
  | .lookUp thread =>
    match recorder.threads.get? thread with
    | some (.received body) =>
      if recorder.registered then some (recorder.move thread (.found body))
      else some (recorder.move thread .finished)
    | _ => none
  | .beginCall thread =>
    match recorder.threads.get? thread with
    | some (.found body) => some (recorder.beginCall.move thread (.begun body))
    | _ => none
  | .read thread =>
    match recorder.threads.get? thread with
    | some (.begun body) =>
      match JudgeWire.enforce body with
      | .error _ => some (recorder.move thread .rejected)
      | .ok forwarded => some (recorder.move thread (.accepted forwarded))
    | _ => none
  | .allocate thread =>
    match recorder.threads.get? thread with
    | some (.accepted forwarded) =>
      match recorder.allocate scope with
      | none => some (recorder.move thread .rejected)
      | some (attempt, counted) => some (counted.move thread (.allocated attempt forwarded))
    | _ => none
  | .forward thread answer =>
    match recorder.threads.get? thread with
    | some (.allocated attempt forwarded) =>
      some <| (recorder.send attempt forwarded answer).move thread <|
        match answer with
        | .response successful =>
          .answered attempt forwarded (if successful then .success else .upstreamError)
        | .refused _ => .failed attempt forwarded .recorderError
        | .transport _ => .failed attempt forwarded .transportError
        | .escaped _ => .ending
    | _ => none
  | .write thread stored =>
    match recorder.threads.get? thread with
    | some (.answered attempt forwarded outcome) =>
      match if stored then recorder.writeExchange ⟨attempt, forwarded, outcome⟩ else none with
      | none => some (recorder.move thread (.failed attempt forwarded .recorderError))
      | some written => some (written.move thread (.recorded attempt forwarded))
    | _ => none
  | .deliver thread delivered =>
    match recorder.threads.get? thread with
    | some (.recorded attempt forwarded) =>
      if delivered then some (recorder.move thread .ending)
      else some (recorder.move thread (.failed attempt forwarded .recorderError))
    | _ => none
  | .writeFailure thread stored =>
    match recorder.threads.get? thread with
    | some (.failed attempt forwarded outcome) =>
      match if stored then recorder.writeExchange ⟨attempt, forwarded, outcome⟩ else none with
      | none => some (recorder.move thread .ending)
      | some written => some (written.move thread .ending)
    | _ => none
  | .recordRejection thread =>
    match recorder.threads.get? thread with
    | some .rejected => some (recorder.recordRejection.move thread .ending)
    | _ => none
  | .escape thread =>
    match recorder.threads.get? thread with
    | some call =>
      if call.isTried then some (recorder.move thread .ending) else none
    | none => none
  | .finishCall thread =>
    match recorder.threads.get? thread with
    | some .ending => some (recorder.finishCall.move thread .finished)
    | _ => none
  | .revoke =>
    if recorder.registered then some { recorder with registered := false }.awaitIdle else none
  | .wake => if recorder.revocation = .waiting then some recorder.awaitIdle else none
  | .timeOut =>
    if recorder.revocation = .waiting ∧ recorder.activeCalls.getD 0 ≠ 0 then
      some { recorder with revocation := .raised }
    else none
  | .writeSummary stored =>
    if recorder.revocation = .counted then
      if stored then some { recorder with revocation := .returned }
      else some { recorder with revocation := .raised, summary := none }
    else none
  | .assemble judgeExpected others =>
    match recorder.revocation, recorder.assembly with
    | .returned, .pending => some (recorder.assemble judgeExpected others)
    | _, _ => none

end HarborHF.Providers
