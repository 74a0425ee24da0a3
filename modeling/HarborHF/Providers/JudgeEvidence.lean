import HarborHF.Providers.JudgeRecorder

/-!
# Complete judge evidence

A request that has found its scope is registered as active in a second critical section. When
`revoke_scope` fixes the counts in between, the request is numbered anew and forwarded after the
revocation has returned, and nothing of it is in the evidence. Where the requests in that window are
refused when they are read, evidence that is accepted holds the exchanges that were forwarded, numbered
from one, and nothing is forwarded after the revocation.
-/

set_option autoImplicit false

namespace HarborHF.Providers

open Relational

open JudgeWire (Forwarded)

/-! ### Complete evidence -/

section Evidence

variable {Forwarded : Type}

def Exchange.request (exchange : Exchange Forwarded) : ℕ × Forwarded :=
  (exchange.attempt, exchange.forwarded)

def Sent.request (sent : Sent Forwarded) : ℕ × Forwarded := (sent.attempt, sent.forwarded)

/-- The exchanges of a scope are the requests that were forwarded, numbered from one, none of them after
the revocation. -/
structure Complete (exchanges : List (Exchange Forwarded)) (sent : List (Sent Forwarded)) : Prop where
  exact : (exchanges.map Exchange.request).Perm (sent.map Sent.request)
  numbers : exchanges.map Exchange.attempt = List.range' 1 exchanges.length
  punctual : ∀ request ∈ sent, request.late = false

/-- What the directory of a scope and the requests sent have in common while exchanges are recorded:
both have numbers of their own up to the count, and a success was sent. -/
structure Numbered (total : ℕ) (exchanges : List (Exchange Forwarded)) (sent : List (Sent Forwarded)) :
    Prop where
  exchangesNodup : (exchanges.map Exchange.attempt).Nodup
  exchangesBound : ∀ exchange ∈ exchanges, 1 ≤ exchange.attempt ∧ exchange.attempt ≤ total
  sentNodup : (sent.map Sent.attempt).Nodup
  sentBound : ∀ request ∈ sent, 1 ≤ request.attempt ∧ request.attempt ≤ total
  recorded : ∀ exchange ∈ exchanges, exchange.outcome = .success →
    exchange.request ∈ sent.map Sent.request
  punctual : ∀ request ∈ sent, request.late = false

variable {total : ℕ} {exchanges : List (Exchange Forwarded)} {sent : List (Sent Forwarded)}

theorem Numbered.initial : Numbered 0 ([] : List (Exchange Forwarded)) [] := by
  constructor <;> simp

theorem Numbered.mono {more : ℕ} (h : Numbered total exchanges sent) (hle : total ≤ more) :
    Numbered more exchanges sent where
  exchangesNodup := h.exchangesNodup
  exchangesBound := fun exchange hmem ↦
    ⟨(h.exchangesBound exchange hmem).1, (h.exchangesBound exchange hmem).2.trans hle⟩
  sentNodup := h.sentNodup
  sentBound := fun request hmem ↦
    ⟨(h.sentBound request hmem).1, (h.sentBound request hmem).2.trans hle⟩
  recorded := h.recorded
  punctual := h.punctual

/-- An exchange is recorded under a number that is not there. -/
theorem Numbered.write {exchange : Exchange Forwarded} (h : Numbered total exchanges sent)
    (hnew : exchange.attempt ∉ exchanges.map Exchange.attempt)
    (hbound : 1 ≤ exchange.attempt ∧ exchange.attempt ≤ total)
    (hsent : exchange.outcome = .success → exchange.request ∈ sent.map Sent.request) :
    Numbered total (exchanges ++ [exchange]) sent where
  exchangesNodup := by
    rw [List.map_append, List.map_singleton]
    exact List.nodup_append.mpr ⟨h.exchangesNodup, List.nodup_singleton _, fun attempt hattempt other hother ↦
      fun heq ↦ hnew (List.mem_singleton.mp hother ▸ heq ▸ hattempt)⟩
  exchangesBound := by
    intro other hother
    rcases List.mem_append.mp hother with hbefore | hnow
    · exact h.exchangesBound other hbefore
    · rw [List.mem_singleton.mp hnow]
      exact hbound
  sentNodup := h.sentNodup
  sentBound := h.sentBound
  recorded := by
    intro other hother
    rcases List.mem_append.mp hother with hbefore | hnow
    · exact h.recorded other hbefore
    · rw [List.mem_singleton.mp hnow]
      exact hsent
  punctual := h.punctual

/-- A request is sent under a number that no other was sent under. -/
theorem Numbered.send {request : Sent Forwarded} (h : Numbered total exchanges sent)
    (hnew : request.attempt ∉ sent.map Sent.attempt)
    (hbound : 1 ≤ request.attempt ∧ request.attempt ≤ total) (hlate : request.late = false) :
    Numbered total exchanges (sent ++ [request]) where
  exchangesNodup := h.exchangesNodup
  exchangesBound := h.exchangesBound
  sentNodup := by
    rw [List.map_append, List.map_singleton]
    exact List.nodup_append.mpr ⟨h.sentNodup, List.nodup_singleton _, fun attempt hattempt other hother ↦
      fun heq ↦ hnew (List.mem_singleton.mp hother ▸ heq ▸ hattempt)⟩
  sentBound := by
    intro other hother
    rcases List.mem_append.mp hother with hbefore | hnow
    · exact h.sentBound other hbefore
    · rw [List.mem_singleton.mp hnow]
      exact hbound
  recorded := by
    intro exchange hmem hsuccess
    rw [List.map_append]
    exact List.mem_append_left _ (h.recorded exchange hmem hsuccess)
  punctual := by
    intro other hother
    rcases List.mem_append.mp hother with hbefore | hnow
    · exact h.punctual other hbefore
    · rw [List.mem_singleton.mp hnow]
      exact hlate

section Numbers

variable {numbers : List ℕ} (hnodup : numbers.Nodup)
  (hbound : ∀ number ∈ numbers, 1 ≤ number ∧ number ≤ total)

include hnodup hbound

theorem subperm_range'_of_nodup : numbers.Subperm (List.range' 1 total) := by
  refine List.subperm_of_subset hnodup fun number hmem ↦ ?_
  obtain ⟨hpos, hle⟩ := hbound number hmem
  rw [List.mem_range'_1]
  omega

theorem length_le_of_nodup : numbers.length ≤ total := by
  have hle := (subperm_range'_of_nodup hnodup hbound).length_le
  rwa [List.length_range'] at hle

theorem perm_range'_of_nodup (hlength : total ≤ numbers.length) :
    numbers.Perm (List.range' 1 total) := by
  refine (subperm_range'_of_nodup hnodup hbound).perm_of_length_le ?_
  rwa [List.length_range']

end Numbers

theorem sortedExchanges_perm : (sortedExchanges exchanges).Perm exchanges := by
  unfold sortedExchanges
  exact List.perm_insertionSort _ exchanges

/-- The sort puts numbers that are all those from one in their order. -/
theorem map_attempt_sortedExchanges
    (h : (exchanges.map Exchange.attempt).Perm (List.range' 1 exchanges.length)) :
    (sortedExchanges exchanges).map Exchange.attempt = List.range' 1 exchanges.length := by
  have hsorted : (sortedExchanges exchanges).Pairwise fun first second ↦
      first.attempt ≤ second.attempt := by
    unfold sortedExchanges
    have htotal : Std.Total fun first second : Exchange Forwarded ↦ first.attempt ≤ second.attempt :=
      ⟨fun first second ↦ Nat.le_total _ _⟩
    have htrans : IsTrans (Exchange Forwarded) fun first second ↦ first.attempt ≤ second.attempt :=
      ⟨fun first second third ↦ Nat.le_trans⟩
    exact List.pairwise_insertionSort _ exchanges
  have hmap : ((sortedExchanges exchanges).map Exchange.attempt).Pairwise (· ≤ ·) :=
    List.pairwise_map.mpr hsorted
  exact ((sortedExchanges_perm.map _).trans h).eq_of_pairwise' hmap (List.pairwise_le_range' 1)

/-- As many successes as the count, of numbers of their own up to the count, are everything that was
sent. -/
theorem Numbered.complete (h : Numbered total exchanges sent) (hlength : total = exchanges.length)
    (hsuccess : ∀ exchange ∈ exchanges, exchange.outcome = .success) :
    Complete (sortedExchanges exchanges) sent := by
  have hbound : ∀ number ∈ exchanges.map Exchange.attempt, 1 ≤ number ∧ number ≤ total := by
    intro number hnumber
    obtain ⟨exchange, hmem, rfl⟩ := List.mem_map.mp hnumber
    exact h.exchangesBound exchange hmem
  have hsentBound : ∀ number ∈ sent.map Sent.attempt, 1 ≤ number ∧ number ≤ total := by
    intro number hnumber
    obtain ⟨request, hmem, rfl⟩ := List.mem_map.mp hnumber
    exact h.sentBound request hmem
  have hperm := perm_range'_of_nodup h.exchangesNodup hbound (by rw [List.length_map, hlength])
  have hnodup : (exchanges.map Exchange.request).Nodup := by
    refine List.Nodup.of_map Prod.fst ?_
    rw [List.map_map]
    exact h.exchangesNodup
  have hsubset : exchanges.map Exchange.request ⊆ sent.map Sent.request := by
    intro request hrequest
    obtain ⟨exchange, hmem, rfl⟩ := List.mem_map.mp hrequest
    exact h.recorded exchange hmem (hsuccess exchange hmem)
  have hsentLength := length_le_of_nodup h.sentNodup hsentBound
  constructor
  · refine (sortedExchanges_perm.map _).trans ((List.subperm_of_subset hnodup hsubset).perm_of_length_le ?_)
    rw [List.length_map] at hsentLength ⊢
    rw [List.length_map]
    omega
  · rw [map_attempt_sortedExchanges (hlength ▸ hperm), sortedExchanges_perm.length_eq]
  · exact h.punctual

/-- What is accepted of a scope has no rejected call, as many exchanges as were counted, and only
successes. -/
theorem collectJudgeEvidence_eq_ok {judgeExpected : Bool} {summary : Option RecorderSummary}
    {accepted : List (Exchange Forwarded)}
    (h : collectJudgeEvidence judgeExpected summary exchanges = .ok accepted) :
    ∃ closed, summary = some closed ∧ closed.exchangeCount = exchanges.length ∧
      (∀ exchange ∈ exchanges, exchange.outcome = .success) ∧
      accepted = sortedExchanges exchanges := by
  unfold collectJudgeEvidence at h
  split at h
  · split at h
    · cases h
    · cases h
  · cases summary with
    | none => cases h
    | some closed =>
      dsimp only at h
      split_ifs at h with hrejected hcount hsuccess
      refine ⟨closed, rfl, not_not.mp hcount, fun exchange hmem ↦ ?_, (Except.ok.inj h).symm⟩
      by_contra hne
      exact hsuccess (List.any_eq_true.mpr ⟨exchange, hmem, decide_eq_true hne⟩)

/-! ### While the counts are kept -/

/-- What a call holds: its number is one of those counted, it is fresh until it is sent, and an answer
was sent. -/
def Call.Fits {Body : Type} (total : ℕ) (sent : List (Sent Forwarded)) : Call Body Forwarded → Prop
  | .allocated attempt _ => (1 ≤ attempt ∧ attempt ≤ total) ∧ attempt ∉ sent.map Sent.attempt
  | .answered attempt forwarded _ =>
    (1 ≤ attempt ∧ attempt ≤ total) ∧ (attempt, forwarded) ∈ sent.map Sent.request
  | .failed attempt _ outcome => (1 ≤ attempt ∧ attempt ≤ total) ∧ outcome ≠ .success
  | .recorded attempt _ => 1 ≤ attempt ∧ attempt ≤ total
  | _ => True

/-- The scope before its counts are fixed. -/
structure Running {Body : Type} (recorder : Recorder Body Forwarded) : Prop where
  revocation : recorder.revocation = .idle ∨
    recorder.revocation = .waiting ∧ recorder.registered = false
  pending : recorder.assembly = .pending
  active : recorder.activeCalls.getD 0 = recorder.threads.countP fun entry ↦ entry.2.isActive
  numbered : Numbered (recorder.counts.getD 0) recorder.exchanges recorder.sent
  fits : ∀ thread call, recorder.threads.get? thread = some call →
    call.Fits (recorder.counts.getD 0) recorder.sent
  distinct : ∀ first second attempt forwarded other,
    recorder.threads.get? first = some (.allocated attempt forwarded) →
    recorder.threads.get? second = some (.allocated attempt other) → first = second

section Running

variable {Body : Type} {recorder : Recorder Body Forwarded} {thread attempt : ℕ}
  {call : Call Body Forwarded} {forwarded : Forwarded} {outcome : Outcome}

theorem running_initial : Running (Recorder.initial Body Forwarded) where
  revocation := .inl rfl
  pending := rfl
  active := rfl
  numbered := Numbered.initial
  fits := fun thread call h ↦ by cases h
  distinct := fun first second attempt forwarded other h ↦ by cases h

theorem Call.Fits.mono {more : ℕ} (h : call.Fits total sent) (hle : total ≤ more) :
    call.Fits more sent := by
  cases call with
  | allocated attempt forwarded => exact ⟨⟨h.1.1, h.1.2.trans hle⟩, h.2⟩
  | answered attempt forwarded outcome => exact ⟨⟨h.1.1, h.1.2.trans hle⟩, h.2⟩
  | recorded attempt forwarded => exact ⟨h.1, h.2.trans hle⟩
  | failed attempt forwarded outcome => exact ⟨⟨h.1.1, h.1.2.trans hle⟩, h.2⟩
  | _ => trivial

/-- A request is sent under a number that the call has not allocated. -/
theorem Call.Fits.send {request : Sent Forwarded} (h : call.Fits total sent)
    (hne : ∀ forwarded, call ≠ .allocated request.attempt forwarded) :
    call.Fits total (sent ++ [request]) := by
  cases call with
  | allocated attempt forwarded =>
    refine ⟨h.1, fun hmem ↦ ?_⟩
    rw [List.map_append, List.map_singleton, List.mem_append, List.mem_singleton] at hmem
    rcases hmem with hbefore | rfl
    · exact h.2 hbefore
    · exact hne forwarded rfl
  | answered attempt forwarded outcome =>
    refine ⟨h.1, ?_⟩
    rw [List.map_append]
    exact List.mem_append_left _ h.2
  | recorded attempt forwarded => exact h
  | failed attempt forwarded outcome => exact h
  | _ => trivial

/-- A thread goes on with a call that is not a new number, and the count of the active ones follows. -/
theorem Running.move {active : Option ℕ} (h : Running recorder)
    (hactive : active.getD 0 + (if (recorder.threads.get? thread).any Call.isActive then 1 else 0) =
      recorder.activeCalls.getD 0 + if call.isActive then 1 else 0)
    (hfits : call.Fits (recorder.counts.getD 0) recorder.sent)
    (hnew : ∀ attempt forwarded, call ≠ .allocated attempt forwarded) :
    Running ({ recorder with activeCalls := active }.move thread call) where
  revocation := h.revocation
  pending := h.pending
  active := by
    have hcount := recorder.threads.countP_set thread call Call.isActive
    rw [← h.active] at hcount
    show active.getD 0 = (recorder.threads.set thread call).countP fun entry ↦ entry.2.isActive
    omega
  numbered := h.numbered
  fits := by
    intro other found hfound
    by_cases heq : other = thread
    · rw [heq, Recorder.move, Dict.get?_set_self] at hfound
      exact Option.some.inj hfound ▸ hfits
    · rw [Recorder.move, Dict.get?_set_of_ne heq] at hfound
      exact h.fits other found hfound
  distinct := by
    have hbefore {other attempt : ℕ} {forwarded : Forwarded}
        (hother : (recorder.threads.set thread call).get? other =
          some (.allocated attempt forwarded)) :
        recorder.threads.get? other = some (.allocated attempt forwarded) := by
      by_cases heq : other = thread
      · rw [heq, Dict.get?_set_self] at hother
        exact absurd (Option.some.inj hother) (hnew attempt forwarded)
      · rwa [Dict.get?_set_of_ne heq] at hother
    intro first second attempt forwarded other hfirst hsecond
    exact h.distinct first second attempt forwarded other (hbefore hfirst) (hbefore hsecond)

theorem Running.proceed {old : Option (Call Body Forwarded)} (h : Running recorder)
    (hold : recorder.threads.get? thread = old) (hactive : old.any Call.isActive = call.isActive)
    (hfits : call.Fits (recorder.counts.getD 0) recorder.sent)
    (hnew : ∀ attempt forwarded, call ≠ .allocated attempt forwarded) :
    Running (recorder.move thread call) :=
  h.move (show recorder.activeCalls.getD 0 + _ = _ by rw [hold, hactive]) hfits hnew

/-- The next number is allocated. -/
theorem Running.allocate (h : Running recorder)
    (hthread : recorder.threads.get? thread = some (.accepted forwarded)) :
    Running ({ recorder with counts := some (recorder.counts.getD 0 + 1) }.move thread
      (.allocated (recorder.counts.getD 0 + 1) forwarded)) := by
  have hle : recorder.counts.getD 0 ≤ (some (recorder.counts.getD 0 + 1)).getD 0 := Nat.le_succ _
  have hfresh : recorder.counts.getD 0 + 1 ∉ recorder.sent.map Sent.attempt := by
    intro hmem
    obtain ⟨request, hrequest, heq⟩ := List.mem_map.mp hmem
    have hbound := (h.numbered.sentBound request hrequest).2
    omega
  have hothers (other : ℕ) (found : Forwarded) :
      recorder.threads.get? other ≠ some (.allocated (recorder.counts.getD 0 + 1) found) := by
    intro hother
    have hbound := (h.fits other _ hother).1.2
    omega
  constructor
  · exact h.revocation
  · exact h.pending
  · have hcount := recorder.threads.countP_set thread
      (.allocated (recorder.counts.getD 0 + 1) forwarded) Call.isActive
    rw [← h.active, hthread] at hcount
    exact (Nat.add_right_cancel hcount).symm
  · exact h.numbered.mono hle
  · intro other found hfound
    by_cases heq : other = thread
    · rw [heq, Recorder.move, Dict.get?_set_self] at hfound
      obtain rfl := Option.some.inj hfound
      exact ⟨⟨Nat.succ_pos _, le_refl _⟩, hfresh⟩
    · rw [Recorder.move, Dict.get?_set_of_ne heq] at hfound
      exact (h.fits other found hfound).mono hle
  · intro first second attempt found other hfirst hsecond
    rw [Recorder.move] at hfirst hsecond
    dsimp only at hfirst hsecond
    by_cases heq : first = thread
    · by_cases heq' : second = thread
      · rw [heq, heq']
      · rw [heq, Dict.get?_set_self] at hfirst
        obtain ⟨rfl, -⟩ := Call.allocated.inj (Option.some.inj hfirst)
        rw [Dict.get?_set_of_ne heq'] at hsecond
        exact absurd hsecond (hothers second other)
    · rw [Dict.get?_set_of_ne heq] at hfirst
      by_cases heq' : second = thread
      · rw [heq', Dict.get?_set_self] at hsecond
        obtain ⟨rfl, -⟩ := Call.allocated.inj (Option.some.inj hsecond)
        exact absurd hfirst (hothers first found)
      · rw [Dict.get?_set_of_ne heq'] at hsecond
        exact h.distinct first second attempt found other hfirst hsecond

/-- The request of a thread is sent under its number. -/
theorem Running.send {request : Sent Forwarded} (h : Running recorder)
    (hthread : recorder.threads.get? thread =
      some (.allocated request.attempt request.forwarded))
    (hlate : request.late = false) (hactive : call.isActive = true)
    (hfits : call.Fits (recorder.counts.getD 0) (recorder.sent ++ [request]))
    (hnew : ∀ attempt forwarded, call ≠ .allocated attempt forwarded) :
    Running ({ recorder with sent := recorder.sent ++ [request] }.move thread call) := by
  have hheld := h.fits thread _ hthread
  have hold : (Call.allocated request.attempt request.forwarded : Call Body Forwarded).isActive =
      true := rfl
  constructor
  · exact h.revocation
  · exact h.pending
  · have hcount := recorder.threads.countP_set thread call Call.isActive
    rw [← h.active, hthread, Option.any_some, hold, hactive] at hcount
    exact (Nat.add_right_cancel hcount).symm
  · exact h.numbered.send hheld.2 hheld.1 hlate
  · intro other found hfound
    by_cases heq : other = thread
    · rw [heq, Recorder.move, Dict.get?_set_self] at hfound
      exact Option.some.inj hfound ▸ hfits
    · rw [Recorder.move, Dict.get?_set_of_ne heq] at hfound
      refine (h.fits other found hfound).send fun forwarded' hallocated ↦ heq ?_
      rw [hallocated] at hfound
      exact h.distinct other thread request.attempt forwarded' request.forwarded hfound hthread
  · have hbefore {other number : ℕ} {found : Forwarded}
        (hother : (recorder.threads.set thread call).get? other = some (.allocated number found)) :
        recorder.threads.get? other = some (.allocated number found) := by
      by_cases heq : other = thread
      · rw [heq, Dict.get?_set_self] at hother
        exact absurd (Option.some.inj hother) (hnew number found)
      · rwa [Dict.get?_set_of_ne heq] at hother
    intro first second number found other hfirst hsecond
    exact h.distinct first second number found other (hbefore hfirst) (hbefore hsecond)

/-- An exchange is recorded. -/
theorem Running.write {written : Recorder Body Forwarded} (h : Running recorder)
    (hwrite : recorder.writeExchange ⟨attempt, forwarded, outcome⟩ = some written)
    (hbound : 1 ≤ attempt ∧ attempt ≤ recorder.counts.getD 0)
    (hsent : outcome = .success → (attempt, forwarded) ∈ recorder.sent.map Sent.request) :
    Running written ∧ written.threads = recorder.threads ∧ written.counts = recorder.counts ∧
      written.sent = recorder.sent := by
  unfold Recorder.writeExchange at hwrite
  split_ifs at hwrite with hnew
  obtain rfl := Option.some.inj hwrite
  refine ⟨?_, rfl, rfl, rfl⟩
  exact
    { revocation := h.revocation
      pending := h.pending
      active := h.active
      numbered := h.numbered.write hnew hbound hsent
      fits := h.fits
      distinct := h.distinct }

end Running

end Evidence

/-! ### Once the counts are fixed -/

variable {Body : Type} [JudgeWire Body] {scope : JudgeScope}
  {recorder next : Recorder Body (Forwarded Body)} {thread : ℕ} {call : Call Body (Forwarded Body)}
  {event : JudgeEvent Body}

/-- The body is refused when it is read. -/
def IsRejected (body : Body) : Prop := ∃ error, JudgeWire.enforce body = .error error

/-- A call that forwards nothing any more. -/
def Call.Calm : Call Body (Forwarded Body) → Prop
  | .received _ => True
  | .found body => IsRejected body
  | .begun body => IsRejected body
  | .rejected => True
  | .ending => True
  | .finished => True
  | _ => False

/-- The scope after its counts were fixed. -/
structure Closed (recorder : Recorder Body (Forwarded Body)) : Prop where
  unregistered : recorder.registered = false
  revocation : recorder.revocation = .counted ∨ recorder.revocation = .returned
  unassembled : recorder.revocation = .counted → recorder.assembly = .pending
  calm : ∀ thread call, recorder.threads.get? thread = some call → call.Calm
  pending : recorder.assembly = .pending → ∃ summary, recorder.summary = some summary ∧
    Numbered summary.exchangeCount recorder.exchanges recorder.sent
  complete : ∀ exchanges, recorder.assembly = .accepted exchanges → Complete exchanges recorder.sent

/-- Everything a run can come to, when the counts are fixed with no request in the window that would be
forwarded. -/
inductive Kept (recorder : Recorder Body (Forwarded Body)) : Prop
  | running (h : Running recorder)
  | closed (h : Closed recorder)
  | raised (hrevocation : recorder.revocation = .raised) (hunregistered : recorder.registered = false)
      (hpending : recorder.assembly = .pending)

/-- No request has found its scope, is not active yet and would be forwarded. -/
def NoneFound (recorder : Recorder Body (Forwarded Body)) : Prop :=
  ∀ thread body, recorder.threads.get? thread = some (.found body) → IsRejected body

/-- The counts are fixed in a step that finds none in the window. -/
def Recorder.Quiet (recorder : Recorder Body (Forwarded Body)) : JudgeEvent Body → Prop
  | .revoke => recorder.activeCalls.getD 0 = 0 → NoneFound recorder
  | .wake => recorder.activeCalls.getD 0 = 0 → NoneFound recorder
  | _ => True

theorem Kept.complete (h : Kept recorder) (exchanges : List (Exchange (Forwarded Body)))
    (haccepted : recorder.assembly = .accepted exchanges) : Complete exchanges recorder.sent := by
  cases h with
  | running h =>
    rw [h.pending] at haccepted
    cases haccepted
  | closed h => exact h.complete exchanges haccepted
  | raised _ _ hpending =>
    rw [hpending] at haccepted
    cases haccepted

/-- With no active call left, a running scope is closed. -/
theorem Running.close (h : Running recorder) (hidle : recorder.activeCalls.getD 0 = 0)
    (hnone : NoneFound recorder) (hunregistered : recorder.registered = false) :
    Closed recorder.close where
  unregistered := hunregistered
  revocation := .inl rfl
  unassembled := fun _ ↦ h.pending
  calm := by
    intro thread call hcall
    have hinactive : call.isActive = false := by
      have hcount := h.active
      rw [hidle, eq_comm, List.countP_eq_zero] at hcount
      exact Bool.eq_false_iff.mpr (hcount (thread, call) (Dict.mem_of_get?_eq_some hcall))
    cases call with
    | received body => trivial
    | found body => exact hnone thread body hcall
    | finished => trivial
    | _ => cases hinactive
  pending := fun _ ↦ ⟨_, rfl, h.numbered⟩
  complete := by
    intro exchanges haccepted
    rw [Recorder.close, h.pending] at haccepted
    cases haccepted

theorem Kept.awaitIdle (h : Running recorder) (hunregistered : recorder.registered = false)
    (hquiet : recorder.activeCalls.getD 0 = 0 → NoneFound recorder) : Kept recorder.awaitIdle := by
  unfold Recorder.awaitIdle
  split_ifs with hactive
  · exact .running
      { revocation := .inr ⟨rfl, hunregistered⟩
        pending := h.pending
        active := h.active
        numbered := h.numbered
        fits := h.fits
        distinct := h.distinct }
  · rw [not_not] at hactive
    exact .closed (h.close hactive (hquiet hactive) hunregistered)

theorem Closed.move {active rejections : Option ℕ} (h : Closed recorder) (hcalm : call.Calm) :
    Closed ({ recorder with
      activeCalls := active
      rejections := rejections }.move thread call) where
  unregistered := h.unregistered
  revocation := h.revocation
  unassembled := h.unassembled
  calm := by
    intro other found hfound
    by_cases heq : other = thread
    · rw [heq, Recorder.move, Dict.get?_set_self] at hfound
      exact Option.some.inj hfound ▸ hcalm
    · rw [Recorder.move, Dict.get?_set_of_ne heq] at hfound
      exact h.calm other found hfound
  pending := h.pending
  complete := h.complete

/-- What is assembled of a closed scope is complete. -/
theorem Closed.assemble {judgeExpected others : Bool} (h : Closed recorder)
    (hreturned : recorder.revocation = .returned) (hpending : recorder.assembly = .pending) :
    Closed (recorder.assemble judgeExpected others) where
  unregistered := h.unregistered
  revocation := h.revocation
  unassembled := by
    intro hcounted
    rw [Recorder.assemble, hreturned] at hcounted
    cases hcounted
  calm := h.calm
  pending := by
    intro hassembly
    simp only [Recorder.assemble] at hassembly
    repeat' split at hassembly
    all_goals cases hassembly
  complete := by
    intro exchanges haccepted
    obtain ⟨summary, hsummary, hnumbered⟩ := h.pending hpending
    simp only [Recorder.assemble] at haccepted ⊢
    split at haccepted
    · cases haccepted
    · rename_i accepted hcollect
      split at haccepted
      · obtain rfl := Assembly.accepted.inj haccepted
        obtain ⟨closed, hclosed, hcount, hsuccess, rfl⟩ := collectJudgeEvidence_eq_ok hcollect
        rw [hsummary] at hclosed
        obtain rfl := Option.some.inj hclosed
        exact hnumbered.complete hcount hsuccess
      · cases haccepted

/-! ### Runs -/

/-- A running scope in each step of its threads and of the callers. -/
theorem Running.step (h : Running recorder) (hquiet : recorder.Quiet event)
    (hstep : recorder.step scope event = some next) : Kept next := by
  cases event with
  | receive thread body =>
    simp only [Recorder.step] at hstep
    split at hstep
    · rename_i hthread
      obtain rfl := Option.some.inj hstep
      exact .running (h.proceed hthread rfl trivial (by simp))
    · cases hstep
  | lookUp thread =>
    simp only [Recorder.step] at hstep
    split at hstep
    · rename_i body hthread
      split_ifs at hstep
      · obtain rfl := Option.some.inj hstep
        exact .running (h.proceed hthread rfl trivial (by simp))
      · obtain rfl := Option.some.inj hstep
        exact .running (h.proceed hthread rfl trivial (by simp))
    · cases hstep
  | beginCall thread =>
    simp only [Recorder.step] at hstep
    split at hstep
    · rename_i body hthread
      obtain rfl := Option.some.inj hstep
      exact .running (h.move (by rw [hthread]; rfl) trivial (by simp))
    · cases hstep
  | read thread =>
    simp only [Recorder.step] at hstep
    split at hstep
    · rename_i body hthread
      split at hstep
      · obtain rfl := Option.some.inj hstep
        exact .running (h.proceed hthread rfl trivial (by simp))
      · obtain rfl := Option.some.inj hstep
        exact .running (h.proceed hthread rfl trivial (by simp))
    · cases hstep
  | allocate thread =>
    simp only [Recorder.step] at hstep
    split at hstep
    · rename_i forwarded hthread
      split at hstep
      · obtain rfl := Option.some.inj hstep
        exact .running (h.proceed hthread rfl trivial (by simp))
      · rename_i attempt counted hallocate
        obtain rfl := Option.some.inj hstep
        simp only [Recorder.allocate] at hallocate
        split_ifs at hallocate
        obtain ⟨rfl, rfl⟩ := Prod.mk.inj (Option.some.inj hallocate)
        exact .running (h.allocate hthread)
    · cases hstep
  | forward thread answer =>
    simp only [Recorder.step] at hstep
    split at hstep
    · rename_i attempt forwarded hthread
      obtain rfl := Option.some.inj hstep
      have hlate : decide (recorder.revocation = .returned) = false := by
        rcases h.revocation with heq | ⟨heq, -⟩
        · simp [heq]
        · simp [heq]
      have hbound := (h.fits thread _ hthread).1
      unfold Recorder.send
      split_ifs with hsent
      · refine .running (h.send hthread hlate ?_ ?_ ?_)
        · cases answer <;> rfl
        · cases answer with
          | response successful => exact ⟨hbound, by simp [Sent.request]⟩
          | refused sent => exact ⟨hbound, by simp⟩
          | transport sent => exact ⟨hbound, by simp⟩
          | escaped sent => trivial
        · cases answer <;> simp
      · cases answer with
        | response successful => exact absurd rfl hsent
        | refused sent => exact .running (h.proceed hthread rfl ⟨hbound, by simp⟩ (by simp))
        | transport sent => exact .running (h.proceed hthread rfl ⟨hbound, by simp⟩ (by simp))
        | escaped sent => exact .running (h.proceed hthread rfl trivial (by simp))
    · cases hstep
  | write thread stored =>
    simp only [Recorder.step] at hstep
    split at hstep
    · rename_i attempt forwarded outcome hthread
      obtain ⟨hbound, hsent⟩ := h.fits thread _ hthread
      split at hstep
      · obtain rfl := Option.some.inj hstep
        exact .running (h.proceed hthread rfl ⟨hbound, by simp⟩ (by simp))
      · rename_i written hwrite
        obtain rfl := Option.some.inj hstep
        split_ifs at hwrite
        obtain ⟨hwritten, hthreads, hcounts, -⟩ := h.write hwrite hbound fun _ ↦ hsent
        exact .running (hwritten.proceed (hthreads ▸ hthread) rfl (hcounts ▸ hbound) (by simp))
    · cases hstep
  | deliver thread delivered =>
    simp only [Recorder.step] at hstep
    split at hstep
    · rename_i attempt forwarded hthread
      have hbound := h.fits thread _ hthread
      split_ifs at hstep
      · obtain rfl := Option.some.inj hstep
        exact .running (h.proceed hthread rfl trivial (by simp))
      · obtain rfl := Option.some.inj hstep
        exact .running (h.proceed hthread rfl ⟨hbound, by simp⟩ (by simp))
    · cases hstep
  | writeFailure thread stored =>
    simp only [Recorder.step] at hstep
    split at hstep
    · rename_i attempt forwarded outcome hthread
      obtain ⟨hbound, hfailure⟩ := h.fits thread _ hthread
      split at hstep
      · obtain rfl := Option.some.inj hstep
        exact .running (h.proceed hthread rfl trivial (by simp))
      · rename_i written hwrite
        obtain rfl := Option.some.inj hstep
        split_ifs at hwrite
        obtain ⟨hwritten, hthreads, -, -⟩ :=
          h.write hwrite hbound fun hsuccess ↦ absurd hsuccess hfailure
        exact .running (hwritten.proceed (hthreads ▸ hthread) rfl trivial (by simp))
    · cases hstep
  | recordRejection thread =>
    simp only [Recorder.step] at hstep
    split at hstep
    · rename_i hthread
      obtain rfl := Option.some.inj hstep
      have hrecorded : Running recorder.recordRejection :=
        { revocation := h.revocation
          pending := h.pending
          active := h.active
          numbered := h.numbered
          fits := h.fits
          distinct := h.distinct }
      exact .running (hrecorded.proceed hthread rfl trivial (by simp))
    · cases hstep
  | escape thread =>
    simp only [Recorder.step] at hstep
    split at hstep
    · rename_i call hthread
      split_ifs at hstep with htried
      obtain rfl := Option.some.inj hstep
      refine .running (h.proceed hthread ?_ trivial (by simp))
      cases call <;> first | rfl | cases htried
    · cases hstep
  | finishCall thread =>
    simp only [Recorder.step] at hstep
    split at hstep
    · rename_i hthread
      obtain rfl := Option.some.inj hstep
      have hpos : 0 < recorder.activeCalls.getD 0 := by
        rw [h.active, List.countP_pos_iff]
        exact ⟨_, Dict.mem_of_get?_eq_some hthread, rfl⟩
      refine .running (h.move ?_ trivial (by simp))
      rw [hthread]
      exact Nat.sub_add_cancel hpos
    · cases hstep
  | revoke =>
    simp only [Recorder.step] at hstep
    split_ifs at hstep with hregistered
    obtain rfl := Option.some.inj hstep
    have hrevoked : Running { recorder with registered := false } :=
      { revocation := h.revocation.imp_right fun hwaiting ↦ ⟨hwaiting.1, rfl⟩
        pending := h.pending
        active := h.active
        numbered := h.numbered
        fits := h.fits
        distinct := h.distinct }
    exact Kept.awaitIdle hrevoked rfl hquiet
  | wake =>
    simp only [Recorder.step] at hstep
    split_ifs at hstep with hwaiting
    obtain rfl := Option.some.inj hstep
    rcases h.revocation with hidle | ⟨-, hunregistered⟩
    · rw [hidle] at hwaiting
      cases hwaiting
    · exact Kept.awaitIdle h hunregistered hquiet
  | timeOut =>
    simp only [Recorder.step] at hstep
    split_ifs at hstep with htime
    obtain rfl := Option.some.inj hstep
    rcases h.revocation with hidle | ⟨-, hunregistered⟩
    · rw [hidle] at htime
      cases htime.1
    · exact .raised rfl hunregistered h.pending
  | writeSummary stored =>
    simp only [Recorder.step] at hstep
    split at hstep
    · rename_i hcounted
      rcases h.revocation with heq | ⟨heq, -⟩
      · rw [heq] at hcounted
        cases hcounted
      · rw [heq] at hcounted
        cases hcounted
    · cases hstep
  | assemble judgeExpected others =>
    simp only [Recorder.step] at hstep
    split at hstep
    · rename_i hreturned _
      rcases h.revocation with heq | ⟨heq, -⟩
      · rw [heq] at hreturned
        cases hreturned
      · rw [heq] at hreturned
        cases hreturned
    · cases hstep

/-- A closed scope in each step of its threads and of the callers. -/
theorem Closed.step (h : Closed recorder)
    (hstep : recorder.step scope event = some next) : Kept next := by
  cases event with
  | receive thread body =>
    simp only [Recorder.step] at hstep
    split at hstep
    · obtain rfl := Option.some.inj hstep
      exact .closed (h.move trivial)
    · cases hstep
  | lookUp thread =>
    simp only [Recorder.step, h.unregistered] at hstep
    split at hstep
    · obtain rfl := Option.some.inj hstep
      exact .closed (h.move trivial)
    · cases hstep
  | beginCall thread =>
    simp only [Recorder.step] at hstep
    split at hstep
    · rename_i body hthread
      obtain rfl := Option.some.inj hstep
      have hrejected : IsRejected body := h.calm thread _ hthread
      exact .closed (h.move hrejected)
    · cases hstep
  | read thread =>
    simp only [Recorder.step] at hstep
    split at hstep
    · rename_i body hthread
      obtain ⟨error, herror⟩ := h.calm thread _ hthread
      rw [herror] at hstep
      obtain rfl := Option.some.inj hstep
      exact .closed (h.move trivial)
    · cases hstep
  | allocate thread =>
    simp only [Recorder.step] at hstep
    split at hstep
    · rename_i forwarded hthread
      exact (h.calm thread _ hthread).elim
    · cases hstep
  | forward thread answer =>
    simp only [Recorder.step] at hstep
    split at hstep
    · rename_i attempt forwarded hthread
      exact (h.calm thread _ hthread).elim
    · cases hstep
  | write thread stored =>
    simp only [Recorder.step] at hstep
    split at hstep
    · rename_i attempt forwarded outcome hthread
      exact (h.calm thread _ hthread).elim
    · cases hstep
  | deliver thread delivered =>
    simp only [Recorder.step] at hstep
    split at hstep
    · rename_i attempt forwarded hthread
      exact (h.calm thread _ hthread).elim
    · cases hstep
  | writeFailure thread stored =>
    simp only [Recorder.step] at hstep
    split at hstep
    · rename_i attempt forwarded outcome hthread
      exact (h.calm thread _ hthread).elim
    · cases hstep
  | recordRejection thread =>
    simp only [Recorder.step] at hstep
    split at hstep
    · obtain rfl := Option.some.inj hstep
      exact .closed (h.move trivial)
    · cases hstep
  | escape thread =>
    simp only [Recorder.step] at hstep
    split at hstep
    · split_ifs at hstep
      obtain rfl := Option.some.inj hstep
      exact .closed (h.move trivial)
    · cases hstep
  | finishCall thread =>
    simp only [Recorder.step] at hstep
    split at hstep
    · obtain rfl := Option.some.inj hstep
      exact .closed (h.move trivial)
    · cases hstep
  | revoke =>
    simp only [Recorder.step, h.unregistered] at hstep
    cases hstep
  | wake =>
    simp only [Recorder.step] at hstep
    split_ifs at hstep with hwaiting
    rcases h.revocation with heq | heq
    · rw [heq] at hwaiting
      cases hwaiting
    · rw [heq] at hwaiting
      cases hwaiting
  | timeOut =>
    simp only [Recorder.step] at hstep
    split_ifs at hstep with htime
    rcases h.revocation with heq | heq
    · rw [heq] at htime
      cases htime.1
    · rw [heq] at htime
      cases htime.1
  | writeSummary stored =>
    simp only [Recorder.step] at hstep
    split_ifs at hstep with hcounted
    · obtain rfl := Option.some.inj hstep
      exact .closed
        { unregistered := h.unregistered
          revocation := .inr rfl
          unassembled := by simp
          calm := h.calm
          pending := h.pending
          complete := h.complete }
    · obtain rfl := Option.some.inj hstep
      exact .raised rfl h.unregistered (h.unassembled hcounted)
  | assemble judgeExpected others =>
    simp only [Recorder.step] at hstep
    split at hstep
    · rename_i hreturned hpending
      obtain rfl := Option.some.inj hstep
      exact .closed (h.assemble hreturned hpending)
    · cases hstep

/-- What the threads leave as it is. -/
def Recorder.frame (recorder : Recorder Body (Forwarded Body)) :
    Revocation × Bool × Assembly (Forwarded Body) :=
  (recorder.revocation, recorder.registered, recorder.assembly)

theorem frame_of_writeExchange {exchange : Exchange (Forwarded Body)}
    (h : recorder.writeExchange exchange = some next) : next.frame = recorder.frame := by
  unfold Recorder.writeExchange at h
  split_ifs at h
  obtain rfl := Option.some.inj h
  rfl

theorem frame_of_allocate {attempt : ℕ} (h : recorder.allocate scope = some (attempt, next)) :
    next.frame = recorder.frame := by
  simp only [Recorder.allocate] at h
  split_ifs at h
  obtain ⟨-, rfl⟩ := Prod.mk.inj (Option.some.inj h)
  rfl

theorem frame_send {attempt : ℕ} {forwarded : Forwarded Body} {answer : Answer} :
    (recorder.send attempt forwarded answer).frame = recorder.frame := by
  unfold Recorder.send
  split_ifs <;> rfl

/-- A revocation that has raised stays so, and nothing is assembled. -/
theorem frame_of_step (hrevocation : recorder.revocation = .raised)
    (hunregistered : recorder.registered = false)
    (hstep : recorder.step scope event = some next) : next.frame = recorder.frame := by
  cases event with
  | allocate thread =>
    simp only [Recorder.step] at hstep
    split at hstep
    · split at hstep
      · obtain rfl := Option.some.inj hstep
        rfl
      · rename_i hallocate
        obtain rfl := Option.some.inj hstep
        have hframe := frame_of_allocate hallocate
        exact hframe
    · cases hstep
  | forward thread answer =>
    simp only [Recorder.step] at hstep
    split at hstep
    · obtain rfl := Option.some.inj hstep
      exact frame_send
    · cases hstep
  | write thread stored =>
    simp only [Recorder.step] at hstep
    split at hstep
    · split at hstep
      · obtain rfl := Option.some.inj hstep
        rfl
      · rename_i hwrite
        obtain rfl := Option.some.inj hstep
        split_ifs at hwrite
        have hframe := frame_of_writeExchange hwrite
        exact hframe
    · cases hstep
  | writeFailure thread stored =>
    simp only [Recorder.step] at hstep
    split at hstep
    · split at hstep
      · obtain rfl := Option.some.inj hstep
        rfl
      · rename_i hwrite
        obtain rfl := Option.some.inj hstep
        split_ifs at hwrite
        have hframe := frame_of_writeExchange hwrite
        exact hframe
    · cases hstep
  | revoke =>
    simp only [Recorder.step, hunregistered] at hstep
    cases hstep
  | wake =>
    simp only [Recorder.step, hrevocation] at hstep
    cases hstep
  | timeOut =>
    simp only [Recorder.step] at hstep
    rw [if_neg (by simp [hrevocation])] at hstep
    cases hstep
  | writeSummary stored =>
    simp only [Recorder.step, hrevocation] at hstep
    cases hstep
  | assemble judgeExpected others =>
    simp only [Recorder.step, hrevocation] at hstep
    cases hstep
  | _ =>
    simp only [Recorder.step] at hstep
    repeat' split at hstep
    all_goals cases hstep
    all_goals rfl

theorem Kept.step (h : Kept recorder) (hquiet : recorder.Quiet event)
    (hstep : recorder.step scope event = some next) : Kept next := by
  cases h with
  | running h => exact h.step hquiet hstep
  | closed h => exact h.step hstep
  | raised hrevocation hunregistered hpending =>
    have hframe := frame_of_step hrevocation hunregistered hstep
    simp only [Recorder.frame, hrevocation, hunregistered, hpending, Prod.mk.injEq] at hframe
    exact .raised hframe.1 hframe.2.1 hframe.2.2

/-- The recorders reached from a scope that was registered, by steps that satisfy a condition where they
are taken. -/
inductive Recorder.Reaches (scope : JudgeScope)
    (ok : Recorder Body (Forwarded Body) → JudgeEvent Body → Prop) :
    Recorder Body (Forwarded Body) → Prop
  | initial : Recorder.Reaches scope ok (Recorder.initial Body (Forwarded Body))
  | step {recorder next : Recorder Body (Forwarded Body)} {event : JudgeEvent Body}
      (h : Recorder.Reaches scope ok recorder) (hok : ok recorder event)
      (hstep : recorder.step scope event = some next) : Recorder.Reaches scope ok next

theorem Recorder.Reaches.kept (h : Recorder.Reaches scope Recorder.Quiet recorder) :
    Kept recorder := by
  induction h with
  | initial => exact .running running_initial
  | step _ hquiet hstep ih => exact ih.step hquiet hstep

/-- In every run in which the counts are fixed while no request in the window would be forwarded, the
evidence that is accepted is complete. -/
theorem complete_of_quiet (scope : JudgeScope) (recorder : Recorder Body (Forwarded Body))
    (h : Recorder.Reaches scope Recorder.Quiet recorder)
    (exchanges : List (Exchange (Forwarded Body)))
    (haccepted : recorder.assembly = .accepted exchanges) : Complete exchanges recorder.sent :=
  h.kept.complete exchanges haccepted

theorem Recorder.Reaches.run {ok : Recorder Body (Forwarded Body) → JudgeEvent Body → Prop}
    (events : List (JudgeEvent Body)) (h : Recorder.Reaches scope ok recorder)
    (hok : ∀ event ∈ events, ∀ recorder, ok recorder event)
    (hrun : events.foldlM (Recorder.step scope) recorder = some next) :
    Recorder.Reaches scope ok next := by
  induction events generalizing recorder with
  | nil =>
    cases hrun
    exact h
  | cons event events ih =>
    rw [List.foldlM_cons, Option.bind_eq_bind, Option.bind_eq_some_iff] at hrun
    obtain ⟨middle, hstep, hrest⟩ := hrun
    exact ih (h.step (hok event (by simp) recorder) hstep)
      (fun other hother ↦ hok other (by simp [hother])) hrest

/-! ### The window -/

/-- A request in the window of a closed scope is numbered from one and sent after the revocation. -/
theorem exists_late_of_found (scope : JudgeScope) (recorder : Recorder Body (Forwarded Body))
    {body : Body} {forwarded : Forwarded Body}
    (hcounts : recorder.counts = none) (hreturned : recorder.revocation = .returned)
    (hthread : recorder.threads.get? thread = some (.found body))
    (hforwarded : JudgeWire.enforce body = .ok forwarded) :
    ∃ next, [.beginCall thread, .read thread, .allocate thread,
        .forward thread (.response true)].foldlM (Recorder.step scope) recorder = some next ∧
      next.assembly = recorder.assembly ∧ next.sent = recorder.sent ++ [⟨1, forwarded, true⟩] := by
  have hless : ¬0 + 1 > scope.maxCalls := Nat.not_lt.mpr scope.maxCalls_pos
  simp only [List.foldlM_cons, List.foldlM_nil, Recorder.step, Recorder.move, Recorder.beginCall,
    hthread, hforwarded, Dict.get?_set_self, Recorder.allocate, hcounts, Option.getD_none, if_neg hless,
    Option.bind_eq_bind, Option.bind_some, Recorder.send, Answer.sent, if_true, hreturned,
    decide_true]
  exact ⟨_, rfl, rfl, rfl⟩

/-- Where the counts are fixed with a request in the window that would be forwarded, and the evidence
would be accepted, a run goes on to accepted evidence that is not complete. -/
theorem exists_incomplete_of_not_quiet {closed : Recorder Body (Forwarded Body)}
    {exchanges : List (Exchange (Forwarded Body))} (h : Running recorder)
    (hloud : ¬recorder.Quiet event) (hstep : recorder.step scope event = some closed)
    (haccepted : collectJudgeEvidence true
      (some ⟨recorder.counts.getD 0, recorder.rejections.getD 0⟩) recorder.exchanges = .ok exchanges) :
    ∃ (events : List (JudgeEvent Body)) (next : Recorder Body (Forwarded Body)),
      events.foldlM (Recorder.step scope) closed = some next ∧
      next.assembly = .accepted exchanges ∧ ¬Complete exchanges next.sent := by
  obtain ⟨hclosed, hidle, hnone⟩ : closed = { recorder with registered := false }.close ∧
      recorder.activeCalls.getD 0 = 0 ∧ ¬NoneFound recorder := by
    cases event with
    | revoke =>
      rw [Recorder.Quiet, Classical.not_imp] at hloud
      simp only [Recorder.step] at hstep
      split_ifs at hstep
      rw [Recorder.awaitIdle, if_neg (not_not.mpr hloud.1)] at hstep
      exact ⟨(Option.some.inj hstep).symm, hloud⟩
    | wake =>
      rw [Recorder.Quiet, Classical.not_imp] at hloud
      simp only [Recorder.step] at hstep
      split_ifs at hstep with hwaiting
      rw [Recorder.awaitIdle, if_neg (not_not.mpr hloud.1)] at hstep
      have hunregistered : recorder.registered = false := by
        rcases h.revocation with heq | ⟨-, heq⟩
        · rw [heq] at hwaiting
          cases hwaiting
        · exact heq
      have hsame : { recorder with registered := false } = recorder := by
        rw [← hunregistered]
      rw [hsame]
      exact ⟨(Option.some.inj hstep).symm, hloud⟩
    | _ => exact absurd trivial hloud
  simp only [NoneFound, not_forall] at hnone
  obtain ⟨thread, body, hthread, hbody⟩ := hnone
  obtain ⟨forwarded, hforwarded⟩ : ∃ forwarded, JudgeWire.enforce body = .ok forwarded := by
    cases henforce : JudgeWire.enforce body with
    | error error => exact absurd ⟨error, henforce⟩ hbody
    | ok forwarded => exact ⟨forwarded, rfl⟩
  let assembled : Recorder Body (Forwarded Body) :=
    { closed with
      revocation := .returned
      exchanges := []
      summary := none
      assembly := .accepted exchanges }
  have hassembled : [.writeSummary true, .assemble true true].foldlM (Recorder.step scope) closed =
      some assembled := by
    simp only [List.foldlM_cons, List.foldlM_nil, Recorder.step, hclosed, Recorder.close, h.pending,
      Recorder.assemble, haccepted, Option.bind_eq_bind, Option.bind_some, if_true]
    simp only [assembled, hclosed, Recorder.close]
    rfl
  obtain ⟨next, hnext, hassembly, hsent⟩ := exists_late_of_found scope assembled
    (by simp [assembled, hclosed, Recorder.close]) rfl
    (by simpa [assembled, hclosed, Recorder.close] using hthread) hforwarded
  refine ⟨[.writeSummary true, .assemble true true] ++ [.beginCall thread, .read thread,
    .allocate thread, .forward thread (.response true)], next, ?_, hassembly, fun hcomplete ↦ ?_⟩
  · rw [List.foldlM_append, hassembled, Option.bind_eq_bind, Option.bind_some]
    exact hnext
  · have hlate := hcomplete.punctual ⟨1, forwarded, true⟩ (by simp [hsent])
    cases hlate

/-! ### A scope with two requests -/

/-- A wire whose requests are forwarded as they are. -/
@[reducible] def plainWire : JudgeWire String where
  Forwarded := String
  enforce := .ok

local instance plainWireInstance : JudgeWire String := plainWire

local instance decidableEqForwarded : DecidableEq (Forwarded String) :=
  inferInstanceAs (DecidableEq String)

def sampleScope : JudgeScope := ⟨8, by decide, by decide⟩

/-- One call that is recorded and delivered. -/
def judged (thread : ℕ) (body : String) : List (JudgeEvent String) :=
  [.receive thread body, .lookUp thread, .beginCall thread, .read thread, .allocate thread,
    .forward thread (.response true), .write thread true, .deliver thread true, .finishCall thread]

/-- A scope with one recorded exchange, after its evidence was assembled. -/
def sampleRecorder (threads : Dict ℕ (Call String String)) (activeCalls counts : Option ℕ)
    (sent : List (Sent String)) : Recorder String String where
  registered := false
  counts := counts
  rejections := none
  activeCalls := activeCalls
  threads := threads
  exchanges := []
  summary := none
  revocation := .returned
  assembly := .accepted [⟨1, "grade", .success⟩]
  sent := sent

theorem complete_sampleRecorder :
    Complete [(⟨1, "grade", .success⟩ : Exchange String)] [⟨1, "grade", false⟩] := by
  refine @complete_of_quiet String _ sampleScope
    (sampleRecorder [(0, .finished)] none none [⟨1, "grade", false⟩]) ?_ _ rfl
  have hjudged : @Recorder.Reaches String _ sampleScope Recorder.Quiet
      { Recorder.initial String String with
        counts := some 1
        threads := [(0, .finished)]
        exchanges := [⟨1, "grade", .success⟩]
        sent := [⟨1, "grade", false⟩] } := by
    refine Recorder.Reaches.run (judged 0 "grade") .initial ?_ (by decide +kernel)
    intro event hevent recorder
    simp only [judged, List.mem_cons, List.not_mem_nil, or_false] at hevent
    rcases hevent with rfl | rfl | rfl | rfl | rfl | rfl | rfl | rfl | rfl <;> trivial
  refine Recorder.Reaches.run [.writeSummary true, .assemble true true]
    (hjudged.step (show Recorder.Quiet _ .revoke from fun _ thread body hthread ↦ ?_) rfl) ?_
    (by decide +kernel)
  · have hmem := Dict.mem_of_get?_eq_some hthread
    simp at hmem
  · intro event hevent recorder
    simp only [List.mem_cons, List.not_mem_nil, or_false] at hevent
    rcases hevent with rfl | rfl <;> trivial

theorem exists_incomplete_found : ∃ (events : List (JudgeEvent String)) (next : Recorder String String),
    events.foldlM (Recorder.step sampleScope) { Recorder.initial String String with
      registered := false
      threads := [(0, .found "grade")] }.close = some next ∧
      next.assembly = .accepted [] ∧ ¬Complete [] next.sent := by
  refine @exists_incomplete_of_not_quiet String _ sampleScope
    { Recorder.initial String String with threads := [(0, .found "grade")] } .revoke _ _
    ⟨.inl rfl, rfl, rfl, Numbered.initial, ?_, ?_⟩ (fun hquiet ↦ ?_) rfl rfl
  · intro thread call h
    obtain ⟨-, rfl⟩ : thread = 0 ∧ call = .found "grade" := by
      simpa using Dict.mem_of_get?_eq_some h
    trivial
  · intro first second attempt forwarded other h
    simpa using Dict.mem_of_get?_eq_some h
  · obtain ⟨error, herror⟩ := hquiet rfl 0 "grade" rfl
    cases herror

/-- The second request finds its scope before the revocation and is forwarded after the assembly. -/
theorem not_complete :
    ¬∀ (Body : Type) [JudgeWire Body] (scope : JudgeScope) (recorder : Recorder Body (Forwarded Body)),
      Recorder.Reaches scope (fun _ _ ↦ True) recorder →
        ∀ exchanges, recorder.assembly = .accepted exchanges → Complete exchanges recorder.sent := by
  intro h
  have hcomplete := h String sampleScope
    (sampleRecorder [(0, .finished), (1, .answered 1 "regrade" .success)] (some 1) (some 1)
      [(⟨1, "grade", false⟩ : Sent String), ⟨1, "regrade", true⟩])
    (Recorder.Reaches.run (judged 0 "grade" ++ [.receive 1 "regrade", .lookUp 1, .revoke,
        .writeSummary true, .assemble true true, .beginCall 1, .read 1, .allocate 1,
        .forward 1 (.response true)])
      .initial (fun _ _ _ ↦ trivial) (by decide +kernel))
    [⟨1, "grade", .success⟩] rfl
  have hlate := hcomplete.punctual ⟨1, "regrade", true⟩ (by simp [sampleRecorder])
  cases hlate

end HarborHF.Providers
