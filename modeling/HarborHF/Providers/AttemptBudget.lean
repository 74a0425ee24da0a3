import HarborHF.Providers.EvidenceProxy

/-!
# The budget of attempts, and revocation

A revocation takes the counters of a scope away and does not wait for the requests that have found the
scope already: one of them that is let through afterwards starts to count anew, and is forwarded for a
revoked scope. Where no revocation falls into that window of a request, the attempts of each scope and
digest are numbered from one within the budget and none is forwarded for a revoked scope.
-/

set_option autoImplicit false

namespace HarborHF.Providers

open Relational

variable {Body : Type} [ProviderWire Body]

/-! ### What is kept -/

/-- The numbers of the attempts with a scope and a digest, in the order in which they were let
through. -/
def attemptsOf (key : String × String) (entries : List Entry) : List ℕ :=
  (entries.filter fun entry ↦ entry.key = key).map Entry.attempt

/-- The requests forwarded with a scope and a digest. -/
def forwardedOf (key : String × String) (entries : List Entry) : List Entry :=
  entries.filter fun entry ↦ entry.key = key ∧ entry.forwarded = true

/-- The budget of every scope and digest, the numbers of the attempts, and no request forwarded for a
scope that was revoked when it was let through. -/
structure Budgeted (target : ProviderTarget) (system : System Body) : Prop where
  budget : ∀ key, (forwardedOf key system.entries).length ≤ target.maxAttempts
  numbers : ∀ key, attemptsOf key system.entries =
    List.range' 1 (attemptsOf key system.entries).length
  revoked : ∀ entry ∈ system.entries, entry.forwarded = true → entry.late = false

/-- The body is none that `_request` lets through. -/
def Refused (body : Body) : Prop :=
  ∀ payload, ProviderWire.forwarded body = .ok payload →
    ∃ error, ProviderWire.request payload = .error error

/-- A revocation finds no request between the two critical sections that would be let through. -/
def Quiet (system : System Body) : Event Body → Prop
  | .revoke capability =>
    ∀ scope, system.proxy.scopes.get? capability = some scope →
      ∀ thread body, system.threads.get? thread = some (.scoped scope body) → Refused body
  | _ => True

/-- The systems reached by steps that satisfy a condition where they are taken. -/
inductive Reaches (target : ProviderTarget) (ok : System Body → Event Body → Prop) :
    System Body → Prop
  | initial : Reaches target ok (System.initial Body)
  | step {system next : System Body} {event : Event Body} (h : Reaches target ok system)
      (hok : ok system event) (hstep : system.step target event = some next) : Reaches target ok next

/-! ### The invariant -/

/-- What holds of the proxy and its threads while no revocation falls into the window of a request. -/
structure Accounted (target : ProviderTarget) (system : System Body) : Prop where
  known : ∀ scope ∈ system.revoked, scope ∈ system.registered
  live : ∀ capability scope, system.proxy.scopes.get? capability = some scope →
    scope ∈ system.registered ∧ scope ∉ system.revoked
  single : ∀ first second scope, system.proxy.scopes.get? first = some scope →
    system.proxy.scopes.get? second = some scope → first = second
  waiting : ∀ thread scope body, system.threads.get? thread = some (.scoped scope body) →
    scope ∈ system.revoked → Refused body
  counted : ∀ key : String × String, key.1 ∉ system.revoked →
    (system.proxy.attempts.get? key).getD 0 = (attemptsOf key system.entries).length
  numbers : ∀ key, attemptsOf key system.entries =
    List.range' 1 (attemptsOf key system.entries).length
  bounded : ∀ key, (attemptsOf key system.entries).length ≤ target.maxAttempts
  late : ∀ entry ∈ system.entries, entry.late = false

variable {target : ProviderTarget} {system next : System Body} {key : String × String}
  {entries : List Entry} {capability scope : String} {thread index : ℕ} {body : Body}

theorem length_forwardedOf_le : (forwardedOf key entries).length ≤ (attemptsOf key entries).length := by
  unfold forwardedOf attemptsOf
  rw [List.length_map, ← List.countP_eq_length_filter, ← List.countP_eq_length_filter]
  refine List.countP_mono_left fun entry _ h ↦ ?_
  simp only [decide_eq_true_eq] at h ⊢
  exact h.1

theorem Accounted.budgeted (h : Accounted target system) : Budgeted target system where
  budget := fun key ↦ length_forwardedOf_le.trans (h.bounded key)
  numbers := h.numbers
  revoked := fun entry hentry _ ↦ h.late entry hentry

theorem accounted_initial : Accounted target (System.initial Body) := by
  constructor <;> simp [System.initial, attemptsOf]

/-- A step that leaves the proxy and the entries, and only moves a thread elsewhere. -/
theorem Accounted.move {stage : Stage Body} (h : Accounted target system)
    (hstage : ∀ scope body, stage = .scoped scope body → scope ∉ system.revoked) :
    Accounted target { system with threads := system.threads.set thread stage } where
  known := h.known
  live := h.live
  single := h.single
  waiting := by
    intro other scope body hother hrevoked
    by_cases heq : other = thread
    · rw [heq, Dict.get?_set_self] at hother
      exact absurd hrevoked (hstage scope body (Option.some.inj hother))
    · rw [Dict.get?_set_of_ne heq] at hother
      exact h.waiting other scope body hother hrevoked
  counted := h.counted
  numbers := h.numbers
  bounded := h.bounded
  late := h.late

/-! ### Registration and revocation -/

theorem registerScope_eq_some {proxy after : Proxy} (h : registerScope scope capability proxy = some after) :
    after = { proxy with scopes := proxy.scopes.set capability scope } := by
  unfold registerScope at h
  split_ifs at h with hscope hcapability htaken
  exact (Option.some.inj h).symm

/-- A scope is registered that was not before. -/
theorem Accounted.register (h : Accounted target system) (hnew : scope ∉ system.registered) :
    Accounted target { system with
      proxy := { system.proxy with scopes := system.proxy.scopes.set capability scope }
      registered := system.registered ++ [scope] } where
  known := fun other hother ↦ List.mem_append_left _ (h.known other hother)
  live := by
    intro other found hget
    by_cases heq : other = capability
    · rw [heq, Dict.get?_set_self] at hget
      obtain rfl := Option.some.inj hget
      exact ⟨by simp, fun hrevoked ↦ hnew (h.known _ hrevoked)⟩
    · rw [Dict.get?_set_of_ne heq] at hget
      obtain ⟨hregistered, hrevoked⟩ := h.live other found hget
      exact ⟨List.mem_append_left _ hregistered, hrevoked⟩
  single := by
    intro first second found hfirst hsecond
    by_cases heq : first = capability
    · by_cases heq' : second = capability
      · rw [heq, heq']
      · rw [heq, Dict.get?_set_self] at hfirst
        rw [Dict.get?_set_of_ne heq', ← hfirst] at hsecond
        exact absurd (h.live second scope hsecond).1 hnew
    · rw [Dict.get?_set_of_ne heq] at hfirst
      by_cases heq' : second = capability
      · rw [heq', Dict.get?_set_self, ← hfirst] at hsecond
        exact absurd (h.live first scope hsecond.symm).1 hnew
      · rw [Dict.get?_set_of_ne heq'] at hsecond
        exact h.single first second found hfirst hsecond
  waiting := h.waiting
  counted := h.counted
  numbers := h.numbers
  bounded := h.bounded
  late := h.late

theorem get?_filter_scope {attempts : Dict (String × String) ℕ} (hkey : key.1 ≠ scope) :
    Dict.get? (attempts.filter fun entry ↦ entry.1.1 ≠ scope) key = attempts.get? key := by
  induction attempts with
  | nil => rfl
  | cons entry attempts ih =>
    obtain ⟨first, count⟩ := entry
    by_cases hfirst : first.1 = scope
    · have hne : first ≠ key := fun heq ↦ hkey (heq ▸ hfirst)
      rw [List.filter_cons_of_neg (by simpa using hfirst), ih, Dict.get?, if_neg hne]
    · rw [List.filter_cons_of_pos (by simpa using hfirst), Dict.get?, Dict.get?, ih]

/-- A revocation outside the window of every request. -/
theorem Accounted.revoke (h : Accounted target system) (hquiet : Quiet system (.revoke capability)) :
    Accounted target { system with
      proxy := revokeScope capability system.proxy
      revoked := system.revoked ++ (system.proxy.scopes.get? capability).toList } := by
  cases hget : system.proxy.scopes.get? capability with
  | none => simpa [revokeScope, hget] using h
  | some scope =>
    have hproxy : revokeScope capability system.proxy =
        { system.proxy with
          scopes := system.proxy.scopes.erase capability
          attempts := system.proxy.attempts.filter fun entry ↦ entry.1.1 ≠ scope } := by
      rw [revokeScope, hget]
    rw [hproxy, Option.toList_some]
    have hothers {other found : String}
        (hother : (system.proxy.scopes.erase capability).get? other = some found) :
        other ≠ capability ∧ system.proxy.scopes.get? other = some found := by
      by_cases heq : other = capability
      · rw [heq, Dict.get?_erase_self] at hother
        cases hother
      · rw [Dict.get?_erase_of_ne heq] at hother
        exact ⟨heq, hother⟩
    constructor
    · intro other hother
      rcases List.mem_append.mp hother with hbefore | hnow
      · exact h.known other hbefore
      · rw [List.mem_singleton.mp hnow]
        exact (h.live capability scope hget).1
    · intro other found hother
      obtain ⟨hne, hfound⟩ := hothers hother
      obtain ⟨hregistered, hrevoked⟩ := h.live other found hfound
      refine ⟨hregistered, fun hmem ↦ ?_⟩
      rcases List.mem_append.mp hmem with hbefore | hnow
      · exact hrevoked hbefore
      · rw [List.mem_singleton.mp hnow] at hfound
        exact hne (h.single other capability scope hfound hget)
    · intro first second found hfirst hsecond
      exact h.single first second found (hothers hfirst).2 (hothers hsecond).2
    · intro thread other body hthread hmem
      rcases List.mem_append.mp hmem with hbefore | hnow
      · exact h.waiting thread other body hthread hbefore
      · rw [List.mem_singleton.mp hnow] at hthread
        exact hquiet scope hget thread body hthread
    · intro key hkey
      rw [List.mem_append, List.mem_singleton, not_or] at hkey
      rw [get?_filter_scope hkey.2]
      exact h.counted key hkey.1
    · exact h.numbers
    · exact h.bounded
    · exact h.late

/-! ### Requests -/

/-- What `_request` does: it refuses and counts nothing, or it counts one more attempt. -/
theorem request_cases (target : ProviderTarget) (payload : ProviderWire.Payload Body)
    (scope : String) (proxy : Proxy) : let result := request target payload scope proxy
    let key := (scope, ProviderWire.digest payload)
    let previous := (proxy.attempts.get? key).getD 0
    (∃ error, result.1 = .error error) ∧ result.2.scopes = proxy.scopes ∧
        result.2.attempts = proxy.attempts ∨
      (∃ observed, result.1 = .ok (observed, previous + 1)) ∧ previous < target.maxAttempts ∧
        result.2.scopes = proxy.scopes ∧
        result.2.attempts = proxy.attempts.set key (previous + 1) ∧
        ∃ observe, ProviderWire.request payload = .ok observe := by
  unfold request
  cases hobserve : ProviderWire.request payload with
  | error error => exact .inl ⟨⟨error, rfl⟩, rfl, rfl⟩
  | ok observe =>
    dsimp only
    split_ifs with hspent
    · exact .inl ⟨⟨_, rfl⟩, rfl, rfl⟩
    · exact .inr ⟨⟨_, rfl⟩, Nat.lt_of_not_le hspent, rfl, rfl, observe, rfl⟩

theorem Accounted.of_proxy {proxy : Proxy} (h : Accounted target system)
    (hscopes : proxy.scopes = system.proxy.scopes) (hattempts : proxy.attempts = system.proxy.attempts) :
    Accounted target { system with proxy := proxy } where
  known := h.known
  live := by simpa only [hscopes] using h.live
  single := by simpa only [hscopes] using h.single
  waiting := h.waiting
  counted := by simpa only [hattempts] using h.counted
  numbers := h.numbers
  bounded := h.bounded
  late := h.late

theorem attemptsOf_append (entry : Entry) : attemptsOf key (entries ++ [entry]) =
      attemptsOf key entries ++ if entry.key = key then [entry.attempt] else [] := by
  unfold attemptsOf
  rw [List.filter_append, List.map_append]
  by_cases hkey : entry.key = key
  · simp [hkey]
  · simp [hkey]

/-- One more attempt is let through, for a scope that was not revoked. -/
theorem Accounted.count {proxy : Proxy} {digest : String} (h : Accounted target system)
    (hscope : scope ∉ system.revoked)
    (hless : (system.proxy.attempts.get? (scope, digest)).getD 0 < target.maxAttempts)
    (hscopes : proxy.scopes = system.proxy.scopes)
    (hattempts : proxy.attempts = system.proxy.attempts.set (scope, digest)
      ((system.proxy.attempts.get? (scope, digest)).getD 0 + 1)) : Accounted target { system with
      proxy := proxy
      entries := system.entries ++
        [{ scope := scope
           digest := digest
           attempt := (system.proxy.attempts.get? (scope, digest)).getD 0 + 1
           late := decide (scope ∈ system.revoked)
           forwarded := false }] } := by
  have hcounted := h.counted (scope, digest) hscope
  constructor
  · exact h.known
  · simpa only [hscopes] using h.live
  · simpa only [hscopes] using h.single
  · exact h.waiting
  · intro key hkey
    rw [attemptsOf_append, hattempts]
    by_cases heq : (scope, digest) = key
    · subst heq
      rw [Dict.get?_set_self, Entry.key, if_pos rfl, List.length_append, ← hcounted]
      rfl
    · rw [Dict.get?_set_of_ne (Ne.symm heq), Entry.key, if_neg heq, List.append_nil]
      exact h.counted key hkey
  · intro key
    rw [attemptsOf_append]
    by_cases heq : (scope, digest) = key
    · subst heq
      rw [Entry.key, if_pos rfl, List.length_append, List.length_singleton, List.range'_concat,
        ← h.numbers, hcounted, Nat.one_mul, Nat.add_comm]
    · rw [Entry.key, if_neg heq, List.append_nil]
      exact h.numbers key
  · intro key
    rw [attemptsOf_append]
    by_cases heq : (scope, digest) = key
    · subst heq
      rw [Entry.key, if_pos rfl, List.length_append, List.length_singleton, ← hcounted]
      exact hless
    · rw [Entry.key, if_neg heq, List.append_nil]
      exact h.bounded key
  · intro entry hentry
    rcases List.mem_append.mp hentry with hbefore | hnow
    · exact h.late entry hbefore
    · rw [List.mem_singleton.mp hnow]
      exact decide_eq_false hscope

theorem map_modify_forwarded (index : ℕ) :
    (entries.modify index fun entry ↦ { entry with forwarded := true }).map
        (fun entry ↦ (entry.key, entry.attempt, entry.late)) =
      entries.map fun entry ↦ (entry.key, entry.attempt, entry.late) := by
  induction entries generalizing index with
  | nil => simp
  | cons entry entries ih =>
    cases index with
    | zero => simp [Entry.key]
    | succ index => simpa using ih index

theorem attemptsOf_eq_map : attemptsOf key entries =
    (((entries.map fun entry ↦ (entry.key, entry.attempt, entry.late)).filter
      fun entry ↦ entry.1 = key).map fun entry ↦ entry.2.1) := by
  unfold attemptsOf
  rw [List.filter_map, List.map_map]
  rfl

theorem attemptsOf_modify :
    attemptsOf key (entries.modify index fun entry ↦ { entry with forwarded := true }) =
      attemptsOf key entries := by
  rw [attemptsOf_eq_map, map_modify_forwarded, ← attemptsOf_eq_map]

theorem Accounted.forward (h : Accounted target system) : Accounted target { system with
      entries := system.entries.modify index fun entry ↦ { entry with forwarded := true } } where
  known := h.known
  live := h.live
  single := h.single
  waiting := h.waiting
  counted := fun key hkey ↦ by rw [attemptsOf_modify]; exact h.counted key hkey
  numbers := fun key ↦ by rw [attemptsOf_modify]; exact h.numbers key
  bounded := fun key ↦ by rw [attemptsOf_modify]; exact h.bounded key
  late := by
    intro entry hentry
    have hmem : (entry.key, entry.attempt, entry.late) ∈
        system.entries.map fun entry ↦ (entry.key, entry.attempt, entry.late) := by
      rw [← map_modify_forwarded index]
      exact List.mem_map_of_mem hentry
    obtain ⟨before, hbefore, heq⟩ := List.mem_map.mp hmem
    simp only [Prod.mk.injEq] at heq
    rw [← heq.2.2]
    exact h.late before hbefore

/-! ### Runs -/

/-- What a step keeps, when no revocation falls into the window of a request. -/
theorem Accounted.step {event : Event Body} (h : Accounted target system)
    (hquiet : Quiet system event) (hstep : system.step target event = some next)
    (hnodup : next.registered.Nodup) : Accounted target next := by
  cases event with
  | register scope capability =>
    obtain ⟨proxy, hproxy, rfl⟩ := Option.map_eq_some_iff.mp hstep
    obtain rfl := registerScope_eq_some hproxy
    exact h.register fun hmem ↦ (List.disjoint_of_nodup_append hnodup) hmem (by simp)
  | revoke capability =>
    obtain rfl := Option.some.inj hstep
    exact h.revoke hquiet
  | receive thread path body =>
    simp only [System.step] at hstep
    split at hstep
    · obtain rfl := Option.some.inj hstep
      exact h.move (by simp)
    · cases hstep
  | lookUp thread =>
    simp only [System.step] at hstep
    split at hstep
    · rename_i path body _
      split at hstep
      · obtain rfl := Option.some.inj hstep
        exact h.move (by simp)
      · rename_i scope hscope
        obtain rfl := Option.some.inj hstep
        refine h.move fun found _ heq ↦ ?_
        obtain ⟨rfl, -⟩ := Stage.scoped.inj heq
        unfold scopeOf at hscope
        split at hscope
        · cases hscope
        · split_ifs at hscope
          exact (h.live _ _ hscope).2
    · cases hstep
  | request thread =>
    simp only [System.step] at hstep
    split at hstep
    · rename_i scope body hthread
      split at hstep
      · obtain rfl := Option.some.inj hstep
        exact h.move (by simp)
      · rename_i payload hpayload
        have hcases := request_cases target payload scope system.proxy
        generalize request target payload scope system.proxy = result at hcases hstep
        obtain ⟨outcome, proxy⟩ := result
        rcases hcases with
          ⟨⟨error, hrefused⟩, hscopes, hattempts⟩ |
          ⟨⟨observed, hcounted⟩, hless, hscopes, hattempts, observe, hobserve⟩
        · dsimp only at hrefused hscopes hattempts
          subst hrefused
          obtain rfl := Option.some.inj hstep
          exact (h.of_proxy hscopes hattempts).move (by simp)
        · dsimp only at hcounted hscopes hattempts hless
          subst hcounted
          obtain rfl := Option.some.inj hstep
          have hlive : scope ∉ system.revoked := by
            intro hrevoked
            obtain ⟨error, herror⟩ := h.waiting thread scope body hthread hrevoked payload hpayload
            rw [hobserve] at herror
            cases herror
          exact (h.count hlive hless hscopes hattempts).move (by simp)
    · cases hstep
  | forward thread =>
    simp only [System.step] at hstep
    split at hstep
    · obtain rfl := Option.some.inj hstep
      exact h.forward.move (by simp)
    · cases hstep

theorem registered_initial {event : Event Body} (hstep : system.step target event = some next) :
    system.registered <+: next.registered := by
  cases event with
  | register scope capability =>
    obtain ⟨proxy, -, rfl⟩ := Option.map_eq_some_iff.mp hstep
    exact List.prefix_append _ _
  | revoke capability =>
    obtain rfl := Option.some.inj hstep
    exact List.prefix_rfl
  | receive thread path body =>
    simp only [System.step] at hstep
    split at hstep
    · obtain rfl := Option.some.inj hstep
      exact List.prefix_rfl
    · cases hstep
  | lookUp thread =>
    simp only [System.step] at hstep
    repeat' split at hstep
    all_goals cases hstep
    all_goals exact List.prefix_rfl
  | request thread =>
    simp only [System.step] at hstep
    repeat' split at hstep
    all_goals cases hstep
    all_goals exact List.prefix_rfl
  | forward thread =>
    simp only [System.step] at hstep
    split at hstep
    · obtain rfl := Option.some.inj hstep
      exact List.prefix_rfl
    · cases hstep

theorem Reaches.accounted (h : Reaches target Quiet system) (hnodup : system.registered.Nodup) :
    Accounted target system := by
  induction h with
  | initial => exact accounted_initial
  | step hbefore hquiet hstep ih =>
    exact (ih (hnodup.sublist (registered_initial hstep).sublist)).step hquiet hstep hnodup

/-- In every run in which each scope is registered once and no revocation falls into the window of a
request, every state keeps the budget, the numbers and the revocations. -/
theorem budgeted_of_quiet (target : ProviderTarget) (system : System Body)
    (h : Reaches target Quiet system) (hnodup : system.registered.Nodup) : Budgeted target system :=
  (h.accounted hnodup).budgeted

theorem Reaches.run {ok : System Body → Event Body → Prop} (events : List (Event Body))
    (h : Reaches target ok system) (hok : ∀ event ∈ events, ∀ system, ok system event)
    (hrun : events.foldlM (System.step target) system = some next) : Reaches target ok next := by
  induction events generalizing system with
  | nil =>
    cases hrun
    exact h
  | cons event events ih =>
    rw [List.foldlM_cons, Option.bind_eq_bind, Option.bind_eq_some_iff] at hrun
    obtain ⟨middle, hstep, hrest⟩ := hrun
    exact ih (h.step (hok event (by simp) system) hstep)
      (fun other hother ↦ hok other (by simp [hother])) hrest

theorem get?_filter_scope_self {attempts : Dict (String × String) ℕ} (hkey : key.1 = scope) :
    Dict.get? (attempts.filter fun entry ↦ entry.1.1 ≠ scope) key = none := by
  rw [Dict.get?_eq_none_iff]
  intro hmem
  obtain ⟨entry, hentry, heq⟩ := List.mem_map.mp hmem
  have hne := (List.mem_filter.mp hentry).2
  rw [decide_eq_true_eq, heq] at hne
  exact hne hkey

/-- A revocation in the window of a request that would be let through: the request is counted from one
and forwarded for the revoked scope. -/
theorem exists_late_of_not_quiet (target : ProviderTarget) (system : System Body) (capability : String)
    (h : ¬Quiet system (.revoke capability)) :
    ∃ thread next, [.revoke capability, .request thread, .forward thread].foldlM
        (System.step target) system = some next ∧ ¬Budgeted target next := by
  simp only [Quiet, not_forall] at h
  obtain ⟨scope, hscope, thread, body, hthread, hbody⟩ := h
  simp only [Refused, not_forall, not_exists] at hbody
  obtain ⟨payload, hpayload, haccepted⟩ := hbody
  obtain ⟨observe, hobserve⟩ : ∃ observe, ProviderWire.request payload = .ok observe := by
    cases hrequest : ProviderWire.request payload with
    | error error => exact absurd hrequest (haccepted error)
    | ok observe => exact ⟨observe, rfl⟩
  have hrevoked : (revokeScope capability system.proxy).attempts.get?
      (scope, ProviderWire.digest payload) = none := by
    rw [revokeScope, hscope]
    exact get?_filter_scope_self rfl
  obtain ⟨observed, proxy, hcounted⟩ : ∃ observed proxy,
      request target payload scope (revokeScope capability system.proxy) = (.ok (observed, 1), proxy) := by
    simp only [request, hobserve, hrevoked, Option.getD_none]
    rw [if_neg (Nat.not_le_of_lt target.maxAttempts_pos)]
    exact ⟨_, _, rfl⟩
  let entry : Entry := ⟨scope, ProviderWire.digest payload, 1, true, false⟩
  obtain ⟨requested, hrequest, hentries, hplace⟩ : ∃ requested : System Body,
      [.revoke capability, .request thread].foldlM (System.step target) system = some requested ∧
        requested.entries = system.entries ++ [entry] ∧
        requested.threads.get? thread = some (.counted system.entries.length) := by
    simp only [List.foldlM_cons, List.foldlM_nil, System.step, hthread, hpayload, hcounted, hscope,
      Option.bind_eq_bind, Option.bind_some, Option.toList_some]
    exact ⟨_, rfl, by simp [entry], Dict.get?_set_self⟩
  let next : System Body :=
    { requested with
      threads := requested.threads.set thread .forwarded
      entries := requested.entries.modify system.entries.length fun entry ↦
        { entry with forwarded := true } }
  have hforward : requested.step target (.forward thread) = some next := by
    simp only [System.step, hplace]
    rfl
  refine ⟨thread, next, ?_, fun hbudgeted ↦ ?_⟩
  · have happend : ([.revoke capability, .request thread, .forward thread] : List (Event Body)) =
        [.revoke capability, .request thread] ++ [.forward thread] := rfl
    rw [happend, List.foldlM_append, hrequest, Option.bind_eq_bind, Option.bind_some]
    simp only [List.foldlM_cons, List.foldlM_nil, hforward, Option.bind_eq_bind, Option.bind_some]
    rfl
  · have hlast : next.entries[system.entries.length]? = some { entry with forwarded := true } := by
      simp [next, hentries]
    have hlate := hbudgeted.revoked { entry with forwarded := true } (List.mem_of_getElem? hlast) rfl
    cases hlate

/-! ### A scope with one route -/

/-- A wire whose requests are texts, which are all accepted and stand for their digests. -/
@[reducible] def textWire : ProviderWire String where
  Payload := String
  Request := String
  forwarded := .ok
  request := fun payload ↦ .ok fun requestId ↦ requestId ++ payload
  digest := id

local instance textWireInstance : ProviderWire String := textWire

def sampleTarget : ProviderTarget := ⟨.chatCompletions, 1, Nat.one_pos⟩

def sampleCapability : String := "capability-of-trial-one"

def samplePath : String := "/scopes/capability-of-trial-one/v1/chat/completions"

/-- One request from its arrival to the provider. -/
def handled (thread : ℕ) : List (Event String) :=
  [.receive thread samplePath "prompt", .lookUp thread, .request thread, .forward thread]

/-- What a request of the scope is recorded as. -/
def sampleEntry (attempt : ℕ) (late : Bool) : Entry := ⟨"trial-one", "prompt", attempt, late, true⟩

theorem budgeted_handled : Budgeted sampleTarget
      ({ proxy := ⟨[(sampleCapability, "trial-one")], [(("trial-one", "prompt"), 1)], 1⟩
         threads := [(0, .forwarded)]
         registered := ["trial-one"]
         revoked := []
         entries := [sampleEntry 1 false] } : System String) := by
  refine budgeted_of_quiet sampleTarget _ ?_ (by decide)
  refine Reaches.run (.register "trial-one" sampleCapability :: handled 0) .initial ?_ ?_
  · intro event hevent system
    simp only [handled, List.mem_cons, List.not_mem_nil, or_false] at hevent
    rcases hevent with rfl | rfl | rfl | rfl | rfl <;> trivial
  · decide +kernel

/-- A request that has found its scope. -/
def foundSystem : System String :=
  ⟨⟨[(sampleCapability, "trial-one")], [], 0⟩, [(0, .scoped "trial-one" "prompt")], ["trial-one"], [], []⟩

theorem exists_late_foundSystem : ∃ thread next,
    [.revoke sampleCapability, .request thread, .forward thread].foldlM (System.step sampleTarget)
      foundSystem = some next ∧ ¬Budgeted sampleTarget next :=
  exists_late_of_not_quiet sampleTarget foundSystem sampleCapability fun hquiet ↦ by
    obtain ⟨error, herror⟩ := hquiet "trial-one" rfl 0 "prompt" rfl "prompt" rfl
    cases herror

/-- The second request finds its scope before the revocation and is let through after it. -/
theorem not_budgeted :
    ¬∀ (Body : Type) [ProviderWire Body] (target : ProviderTarget) (system : System Body),
      Reaches target (fun _ _ ↦ True) system → system.registered.Nodup → Budgeted target system := by
  intro h
  have hbudgeted := h String sampleTarget
    { proxy := ⟨[], [(("trial-one", "prompt"), 1)], 2⟩
      threads := [(0, .forwarded), (1, .forwarded)]
      registered := ["trial-one"]
      revoked := ["trial-one"]
      entries := [sampleEntry 1 false, sampleEntry 1 true] }
    (Reaches.run (.register "trial-one" sampleCapability :: handled 0 ++
      [.receive 1 samplePath "prompt", .lookUp 1, .revoke sampleCapability, .request 1, .forward 1])
      .initial (fun _ _ _ ↦ trivial) (by decide +kernel))
    (by decide)
  have hbudget := hbudgeted.budget ("trial-one", "prompt")
  exact absurd hbudget (by decide)

end HarborHF.Providers
