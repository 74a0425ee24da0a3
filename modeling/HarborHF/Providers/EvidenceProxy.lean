import Mathlib.Data.List.Basic
import Mathlib.Tactic.Common
import HarborHF.Relational.Dict

/-!
# The provider evidence proxy

`ProviderEvidenceProxy` forwards the requests of scopes, each of which has a route under a capability.
Threads handle the requests: one critical section finds the scope of a route, and, once the request was
read, another counts the attempt and lets it through. In between a scope may be revoked, which takes its
route and its counters away.
-/

set_option autoImplicit false

namespace HarborHF.Providers

open Relational

/-! ### Routes and targets -/

/-- The wire APIs of a target. -/
inductive Api
  | chatCompletions
  | responses
  deriving DecidableEq

/-- `ProviderTarget`, as far as the proxy decides by it. -/
structure ProviderTarget where
  api : Api
  maxAttempts : ℕ
  maxAttempts_pos : 1 ≤ maxAttempts

def isRouteLetter (letter : Char) : Bool :=
  letter.isAlphanum || letter == '_' || letter == '-'

/-- `_ROUTE_CAPABILITY`. -/
def isRouteCapability (capability : String) : Bool :=
  capability.toList.all isRouteLetter && decide (22 ≤ capability.length) &&
    decide (capability.length ≤ 128)

/-- `_REQUEST_SCOPE`. -/
def isRequestScope (scope : String) : Bool :=
  (scope.toList.head?.any Char.isAlphanum) &&
    (scope.toList.all fun letter ↦ isRouteLetter letter || letter == '.') &&
    decide (scope.length ≤ 128)

structure ProviderRoute where
  capability : String
  api : Api
  deriving DecidableEq

def scopesPrefix : List Char := "/scopes/".toList

/-- The route of a path (`_provider_route`). -/
def providerRoute (path : String) : Option ProviderRoute :=
  if scopesPrefix <+: path.toList then
    let rest := path.toList.drop scopesPrefix.length
    let capability := String.ofList (rest.takeWhile isRouteLetter)
    let endpoint := String.ofList (rest.dropWhile isRouteLetter)
    if !isRouteCapability capability then none
    else if endpoint = "/v1/chat/completions" ∨ endpoint = "/v1/chat/completions/" then
      some ⟨capability, .chatCompletions⟩
    else if endpoint = "/v1/responses" ∨ endpoint = "/v1/responses/" then
      some ⟨capability, .responses⟩
    else none
  else none

/-- How the body of a request is read and made the payload that is forwarded (`_read_request`,
`_forwarded_payload`), what is observed of it under a request id (`_provider_request`,
`_provider_responses_request`), and the digest of its canonical text. -/
class ProviderWire (Body : Type) where
  Payload : Type
  Request : Type
  forwarded : Body → Except String Payload
  request : Payload → Except String (String → Request)
  digest : Payload → String

/-! ### The proxy -/

/-- The scopes by their capabilities and the attempts by scope and digest of
`ProviderEvidenceProxy`. -/
structure Proxy where
  scopes : Dict String String
  attempts : Dict (String × String) ℕ
  requestCounter : ℕ
  deriving DecidableEq

/-- One try of `register_scope`, which makes at most eight, each with a capability of its own. -/
def registerScope (scope capability : String) (proxy : Proxy) : Option Proxy :=
  if !isRequestScope scope then none
  else if !isRouteCapability capability then none
  else if capability ∈ proxy.scopes.keys then none
  else some { proxy with scopes := proxy.scopes.set capability scope }

/-- `revoke_scope`. -/
def revokeScope (capability : String) (proxy : Proxy) : Proxy :=
  match proxy.scopes.get? capability with
  | none => proxy
  | some scope =>
    { proxy with
      scopes := proxy.scopes.erase capability
      attempts := proxy.attempts.filter fun entry ↦ entry.1.1 ≠ scope }

/-- The scope of a request (the first critical section of `_handle`). -/
def scopeOf (target : ProviderTarget) (path : String) (proxy : Proxy) : Option String :=
  match providerRoute path with
  | none => none
  | some route => if route.api ≠ target.api then none else proxy.scopes.get? route.capability

variable {Body : Type} [ProviderWire Body]

open ProviderWire (Payload)

/-- The critical section of `_request`: what is returned, and the proxy after it. -/
def request (target : ProviderTarget) (payload : Payload Body) (scope : String) (proxy : Proxy) :
    Except String (ProviderWire.Request Body × ℕ) × Proxy :=
  let counted := { proxy with requestCounter := proxy.requestCounter + 1 }
  let requestId := "provider-" ++ toString counted.requestCounter
  match ProviderWire.request payload with
  | .error error => (.error error, counted)
  | .ok observe =>
    let attemptKey := (scope, ProviderWire.digest payload)
    let previousAttempts := (counted.attempts.get? attemptKey).getD 0
    if target.maxAttempts ≤ previousAttempts then
      (.error "provider request attempt budget is exhausted", counted)
    else
      (.ok (observe requestId, previousAttempts + 1),
        { counted with attempts := counted.attempts.set attemptKey (previousAttempts + 1) })

/-! ### Interleavings -/

/-- Where a thread is with its request. -/
inductive Stage (Body : Type)
  | received (path : String) (body : Body)
  | scoped (scope : String) (body : Body)
  | counted (index : ℕ)
  | forwarded
  | refused (status : ℕ)
  deriving DecidableEq

/-- A request that `_request` has let through, in the order of these. -/
structure Entry where
  scope : String
  digest : String
  attempt : ℕ
  late : Bool
  forwarded : Bool
  deriving DecidableEq

def Entry.key (entry : Entry) : String × String := (entry.scope, entry.digest)

/-- The proxy with its threads, the scopes that were registered, those whose capability was revoked,
and the requests let through. -/
structure System (Body : Type) where
  proxy : Proxy
  threads : Dict ℕ (Stage Body)
  registered : List String
  revoked : List String
  entries : List Entry
  deriving DecidableEq

def System.initial (Body : Type) : System Body := ⟨⟨[], [], 0⟩, [], [], [], []⟩

inductive Event (Body : Type)
  | register (scope capability : String)
  | revoke (capability : String)
  | receive (thread : ℕ) (path : String) (body : Body)
  | lookUp (thread : ℕ)
  | request (thread : ℕ)
  | forward (thread : ℕ)

/-- One step of the threads and of the callers of the proxy. -/
def System.step (target : ProviderTarget) (system : System Body) : Event Body → Option (System Body)
  | .register scope capability =>
    (registerScope scope capability system.proxy).map fun proxy ↦
      { system with proxy := proxy, registered := system.registered ++ [scope] }
  | .revoke capability =>
    some { system with
      proxy := revokeScope capability system.proxy
      revoked := system.revoked ++ (system.proxy.scopes.get? capability).toList }
  | .receive thread path body =>
    match system.threads.get? thread with
    | none => some { system with threads := system.threads.set thread (.received path body) }
    | some _ => none
  | .lookUp thread =>
    match system.threads.get? thread with
    | some (.received path body) =>
      match scopeOf target path system.proxy with
      | none => some { system with threads := system.threads.set thread (.refused 404) }
      | some scope =>
        some { system with threads := system.threads.set thread (.scoped scope body) }
    | _ => none
  | .request thread =>
    match system.threads.get? thread with
    | some (.scoped scope body) =>
      match ProviderWire.forwarded body with
      | .error _ => some { system with threads := system.threads.set thread (.refused 400) }
      | .ok payload =>
        match request target payload scope system.proxy with
        | (.error _, proxy) =>
          some { system with
            proxy := proxy
            threads := system.threads.set thread (.refused 400) }
        | (.ok (_, attempt), proxy) =>
          some { system with
            proxy := proxy
            threads := system.threads.set thread (.counted system.entries.length)
            entries := system.entries ++
              [{ scope := scope
                 digest := ProviderWire.digest payload
                 attempt := attempt
                 late := decide (scope ∈ system.revoked)
                 forwarded := false }] }
    | _ => none
  | .forward thread =>
    match system.threads.get? thread with
    | some (.counted index) =>
      some { system with
        threads := system.threads.set thread .forwarded
        entries := system.entries.modify index fun entry ↦ { entry with forwarded := true } }
    | _ => none

end HarborHF.Providers
