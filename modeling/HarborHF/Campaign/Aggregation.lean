import HarborHF.Campaign.Decisions

/-!
# The status of a run above its trials

The status of a shard is derived from its trials and the one of a run from its shards. Over trials that
have all ended both derivations are one merge of outcomes, and merging the parts of a list and then their
results is merging the whole list. So the status of a run does not depend on how its trials are split.
-/

set_option autoImplicit false

namespace HarborHF.Campaign

open Relational

/-! ### Merging outcomes -/

/-- The outcome of what has the given outcomes as its parts. -/
def mergeOutcomes (outcomes : List TrialOutcome) : TrialOutcome :=
  if .cancelled ∈ outcomes then .cancelled
  else if .complete ∈ outcomes then .complete
  else if .failedInfrastructure ∈ outcomes then .failedInfrastructure
  else .invalid

variable {outcomes : List TrialOutcome}

theorem mergeOutcomes_eq_cancelled_iff :
    mergeOutcomes outcomes = .cancelled ↔ .cancelled ∈ outcomes := by
  unfold mergeOutcomes
  split_ifs with hcancelled <;> simp [hcancelled]

theorem mergeOutcomes_eq_complete_iff :
    mergeOutcomes outcomes = .complete ↔ .cancelled ∉ outcomes ∧ .complete ∈ outcomes := by
  unfold mergeOutcomes
  split_ifs with hcancelled hcomplete <;> simp [*]

theorem mergeOutcomes_eq_failedInfrastructure_iff : mergeOutcomes outcomes = .failedInfrastructure ↔
      .cancelled ∉ outcomes ∧ .complete ∉ outcomes ∧ .failedInfrastructure ∈ outcomes := by
  unfold mergeOutcomes
  split_ifs with hcancelled hcomplete hfailed <;> simp [*]

theorem mergeOutcomes_eq_invalid_iff : mergeOutcomes outcomes = .invalid ↔
      .cancelled ∉ outcomes ∧ .complete ∉ outcomes ∧ .failedInfrastructure ∉ outcomes := by
  unfold mergeOutcomes
  split_ifs with hcancelled hcomplete hfailed <;> simp [*]

/-- Merging the parts first changes nothing. -/
theorem mergeOutcomes_flatten (parts : List (List TrialOutcome)) :
    mergeOutcomes (parts.map mergeOutcomes) = mergeOutcomes parts.flatten := by
  have hcancelled : .cancelled ∈ parts.map mergeOutcomes ↔ .cancelled ∈ parts.flatten := by
    simp only [List.mem_map, List.mem_flatten, mergeOutcomes_eq_cancelled_iff]
  have hcomplete (hnone : .cancelled ∉ parts.flatten) :
      .complete ∈ parts.map mergeOutcomes ↔ .complete ∈ parts.flatten := by
    simp only [List.mem_map, List.mem_flatten, mergeOutcomes_eq_complete_iff]
    refine exists_congr fun part ↦ and_congr_right fun hpart ↦ ?_
    exact and_iff_right fun hmem ↦ hnone (List.mem_flatten.mpr ⟨part, hpart, hmem⟩)
  have hfailed (hnone : .cancelled ∉ parts.flatten) (hnone' : .complete ∉ parts.flatten) :
      .failedInfrastructure ∈ parts.map mergeOutcomes ↔
        .failedInfrastructure ∈ parts.flatten := by
    simp only [List.mem_map, List.mem_flatten, mergeOutcomes_eq_failedInfrastructure_iff]
    refine exists_congr fun part ↦ and_congr_right fun hpart ↦ ?_
    have hpartNone : .cancelled ∉ part := fun hmem ↦
      hnone (List.mem_flatten.mpr ⟨part, hpart, hmem⟩)
    have hpartNone' : .complete ∉ part := fun hmem ↦
      hnone' (List.mem_flatten.mpr ⟨part, hpart, hmem⟩)
    rw [and_iff_right hpartNone, and_iff_right hpartNone']
  by_cases hcancelled' : .cancelled ∈ parts.flatten
  · rw [mergeOutcomes_eq_cancelled_iff.mpr hcancelled',
      mergeOutcomes_eq_cancelled_iff.mpr (hcancelled.mpr hcancelled')]
  by_cases hcomplete' : .complete ∈ parts.flatten
  · rw [mergeOutcomes_eq_complete_iff.mpr ⟨hcancelled', hcomplete'⟩,
      mergeOutcomes_eq_complete_iff.mpr
        ⟨mt hcancelled.mp hcancelled', (hcomplete hcancelled').mpr hcomplete'⟩]
  by_cases hfailed' : .failedInfrastructure ∈ parts.flatten
  · rw [mergeOutcomes_eq_failedInfrastructure_iff.mpr ⟨hcancelled', hcomplete', hfailed'⟩,
      mergeOutcomes_eq_failedInfrastructure_iff.mpr ⟨mt hcancelled.mp hcancelled', mt (hcomplete
      hcancelled').mp hcomplete', (hfailed hcancelled' hcomplete').mpr hfailed'⟩]
  · rw [mergeOutcomes_eq_invalid_iff.mpr ⟨hcancelled', hcomplete', hfailed'⟩,
      mergeOutcomes_eq_invalid_iff.mpr ⟨mt hcancelled.mp hcancelled', mt (hcomplete hcancelled').mp
      hcomplete', mt (hfailed hcancelled' hcomplete').mp hfailed'⟩]

theorem mergeOutcomes_perm {others : List TrialOutcome} (h : outcomes.Perm others) :
    mergeOutcomes outcomes = mergeOutcomes others := by
  unfold mergeOutcomes
  simp only [h.mem_iff]

/-! ### Shards and runs whose parts have ended -/

/-- What the scored end of children and the fallback of ended children make together. -/
theorem scoredTerminalStatus_map :
    (scoredTerminalStatus (outcomes.map some)).getD .cancelled = mergeOutcomes outcomes := by
  have hscored : (outcomes.map some).all scored = false ↔ .cancelled ∈ outcomes := by
    rw [List.all_eq_false]
    simp [scored]
  unfold scoredTerminalStatus mergeOutcomes
  by_cases hcancelled : .cancelled ∈ outcomes
  · rw [if_pos (hscored.mpr hcancelled), if_pos hcancelled]
    rfl
  · rw [if_neg (mt hscored.mp hcancelled), if_neg hcancelled]
    have hmem (outcome : TrialOutcome) : some outcome ∈ outcomes.map some ↔ outcome ∈ outcomes := by
      simp
    simp only [hmem]
    split_ifs <;> rfl

theorem all_isSome_map : (outcomes.map some).all Option.isSome = true := by
  simp

/-- The status of a shard without an observed one whose trials have ended. -/
theorem aggregateShard_of_ended {shard : ShardProjection} {trials : Dict String TrialProjection}
    {statuses : List TrialStatus} (hobserved : shard.observedStatus = none)
    (hstatuses : (shard.trialIds.mapM fun trialId ↦ do
      let trial ← getItem trials trialId
      return trial.status) = .ok statuses)
    (hended : statuses.map TrialStatus.settled = outcomes.map some) :
    aggregateShard shard trials = .ok (mergeOutcomes outcomes).shard := by
  unfold aggregateShard
  rw [hstatuses]
  dsimp only [bind, Except.bind]
  rw [hobserved, hended, ← scoredTerminalStatus_map, if_pos all_isSome_map]
  cases scoredTerminalStatus (outcomes.map some) <;> rfl

/-- The status of a run without an observed one whose shards have ended. -/
theorem aggregateRun_of_ended {run : RunProjection} {shards : Dict String ShardProjection}
    {statuses : List ShardStatus} (hobserved : run.observedStatus = none)
    (hstatuses : (run.shardIds.mapM fun shardId ↦ do
      let shard ← getItem shards shardId
      return shard.status) = .ok statuses)
    (hended : statuses.map ShardStatus.settled = outcomes.map some) :
    aggregateRun run shards = .ok (mergeOutcomes outcomes).run := by
  unfold aggregateRun
  rw [hstatuses]
  dsimp only [bind, Except.bind]
  rw [hobserved, hended, ← scoredTerminalStatus_map, if_pos all_isSome_map]
  cases scoredTerminalStatus (outcomes.map some) <;> rfl

/-! ### Splitting the trials of a run -/

/-- The trials of a run in shards that are not empty and have no observed status. -/
structure Sharding (trialIds : List String) where
  shards : List ShardProjection
  distinct : (shards.map ShardProjection.shardId).Nodup
  nonempty : ∀ shard ∈ shards, shard.trialIds ≠ []
  unobserved : ∀ shard ∈ shards, shard.observedStatus = none
  covers : (shards.flatMap ShardProjection.trialIds).Perm trialIds

namespace Sharding

variable {trialIds : List String}

/-- The status of a run without an observed one, by `_derive_runs` over `_derive_shards`. -/
def runStatus (sharding : Sharding trialIds) (run : RunProjection)
    (trials : Dict String TrialProjection) : Except CampaignError RunStatus := do
  let shards ← deriveShards (sharding.shards.map fun shard ↦ (shard.shardId, shard)) trials
  let run : RunProjection :=
    { run with
      shardIds := sharding.shards.map ShardProjection.shardId
      observedStatus := none }
  let runs ← deriveRuns [(run.runId, run)] shards
  let run ← getItem runs run.runId
  return run.status

end Sharding

/-- The outcome of a trial that has ended. -/
def endedOutcome (trials : Dict String TrialProjection) (trialId : String) : TrialOutcome :=
  ((trials.get? trialId).bind fun trial ↦ trial.status.settled).getD .invalid

/-- The trials with the given identifiers have ended. -/
def Ended (trials : Dict String TrialProjection) (trialIds : List String) : Prop :=
  ∀ trialId ∈ trialIds, ∃ trial, trials.get? trialId = some trial ∧ trial.status.terminal = true

variable {trials : Dict String TrialProjection} {trialIds : List String}

theorem exists_statuses (h : Ended trials trialIds) : ∃ statuses, (trialIds.mapM fun trialId ↦ do
      let trial ← getItem trials trialId
      return trial.status) = .ok statuses ∧
        statuses.map TrialStatus.settled = (trialIds.map (endedOutcome trials)).map some := by
  induction trialIds with
  | nil => exact ⟨[], rfl, rfl⟩
  | cons trialId rest ih =>
    obtain ⟨trial, htrial, hterminal⟩ := h trialId List.mem_cons_self
    obtain ⟨statuses, hstatuses, hsettled⟩ :=
      ih fun other hother ↦ h other (List.mem_cons_of_mem _ hother)
    obtain ⟨outcome, houtcome⟩ := Option.isSome_iff_exists.mp hterminal
    refine ⟨trial.status :: statuses, ?_, ?_⟩
    · rw [List.mapM_cons, hstatuses, getItem, htrial]
      rfl
    · rw [List.map_cons, hsettled, List.map_cons, List.map_cons, endedOutcome, htrial,
        Option.bind_some, houtcome]
      rfl

/-- The shards with their derived statuses. -/
theorem deriveShards_of_ended {shards : List ShardProjection}
    (hobserved : ∀ shard ∈ shards, shard.observedStatus = none)
    (hended : ∀ shard ∈ shards, Ended trials shard.trialIds) :
    deriveShards (shards.map fun shard ↦ (shard.shardId, shard)) trials =
      .ok (shards.map fun shard ↦ (shard.shardId, { shard with
        status := (mergeOutcomes (shard.trialIds.map (endedOutcome trials))).shard })) := by
  unfold deriveShards
  rw [mapM_eq_ok, List.forall₂_map_left_iff, List.forall₂_map_right_iff, List.forall₂_same]
  intro shard hshard
  obtain ⟨statuses, hstatuses, hsettled⟩ := exists_statuses (hended shard hshard)
  rw [aggregateShard_of_ended (hobserved shard hshard) hstatuses hsettled]
  rfl

theorem exists_shardStatuses {shards : List ShardProjection}
    (hdistinct : (shards.map ShardProjection.shardId).Nodup)
    (outcomeOf : ShardProjection → TrialOutcome) :
    ((shards.map ShardProjection.shardId).mapM fun shardId ↦ do
      let shard ← getItem (shards.map fun shard ↦
        (shard.shardId, { shard with status := (outcomeOf shard).shard })) shardId
      return shard.status : Except CampaignError (List ShardStatus)) =
        .ok (shards.map fun shard ↦ (outcomeOf shard).shard) := by
  rw [mapM_eq_ok, List.forall₂_map_left_iff, List.forall₂_map_right_iff, List.forall₂_same]
  intro shard hshard
  have hkeys : Dict.keys (shards.map fun shard ↦
      (shard.shardId, { shard with status := (outcomeOf shard).shard })) =
        shards.map ShardProjection.shardId := by
    rw [Dict.keys, List.map_map]
    rfl
  have hget := (Dict.get?_eq_some_iff (by rw [hkeys]; exact hdistinct)).mpr
    (List.mem_map_of_mem (f := fun shard : ShardProjection ↦
      (shard.shardId, { shard with status := (outcomeOf shard).shard })) hshard)
  rw [getItem, hget]
  rfl

/-- The run status is the merge of the outcomes of the trials. -/
theorem Sharding.runStatus_eq (sharding : Sharding trialIds) (run : RunProjection)
    (h : Ended trials trialIds) : sharding.runStatus run trials =
      .ok (mergeOutcomes (trialIds.map (endedOutcome trials))).run := by
  have hended (shard : ShardProjection) (hshard : shard ∈ sharding.shards) :
      Ended trials shard.trialIds := fun trialId htrial ↦
    h trialId (sharding.covers.mem_iff.mp (List.mem_flatMap.mpr ⟨shard, hshard, htrial⟩))
  let outcomeOf (shard : ShardProjection) : TrialOutcome :=
    mergeOutcomes (shard.trialIds.map (endedOutcome trials))
  have hsettled : (sharding.shards.map fun shard ↦ (outcomeOf shard).shard).map ShardStatus.settled =
      (sharding.shards.map outcomeOf).map some := by
    rw [List.map_map, List.map_map]
    refine List.map_congr_left fun shard _ ↦ ?_
    rw [Function.comp_apply, Function.comp_apply]
    cases outcomeOf shard <;> rfl
  have hmerge : mergeOutcomes (sharding.shards.map outcomeOf) =
      mergeOutcomes (trialIds.map (endedOutcome trials)) := by
    calc mergeOutcomes (sharding.shards.map outcomeOf)
        = mergeOutcomes ((sharding.shards.map fun shard ↦
            shard.trialIds.map (endedOutcome trials)).map mergeOutcomes) := by
          rw [List.map_map]
          rfl
      _ = mergeOutcomes ((sharding.shards.flatMap ShardProjection.trialIds).map
            (endedOutcome trials)) := by
          rw [mergeOutcomes_flatten, List.map_flatMap]
          rfl
      _ = mergeOutcomes (trialIds.map (endedOutcome trials)) :=
          mergeOutcomes_perm (sharding.covers.map _)
  let projected : RunProjection :=
    { run with
      shardIds := sharding.shards.map ShardProjection.shardId
      observedStatus := none }
  have hrun : aggregateRun projected (sharding.shards.map fun shard ↦
      (shard.shardId, { shard with status := (outcomeOf shard).shard })) =
        .ok (mergeOutcomes (sharding.shards.map outcomeOf)).run :=
    aggregateRun_of_ended rfl (exists_shardStatuses sharding.distinct outcomeOf) hsettled
  have hruns : deriveRuns [(run.runId, projected)] (sharding.shards.map fun shard ↦
      (shard.shardId, { shard with status := (outcomeOf shard).shard })) =
        .ok [(run.runId, { projected with
          status := (mergeOutcomes (sharding.shards.map outcomeOf)).run })] := by
    unfold deriveRuns
    rw [List.mapM_cons, List.mapM_nil, hrun]
    rfl
  have hget : getItem [(run.runId, { projected with
      status := (mergeOutcomes (sharding.shards.map outcomeOf)).run })] run.runId =
        .ok { projected with status := (mergeOutcomes (sharding.shards.map outcomeOf)).run } := by
    rw [getItem, Dict.get?, if_pos rfl]
  unfold Sharding.runStatus
  rw [deriveShards_of_ended sharding.unobserved hended]
  dsimp only [bind, Except.bind]
  rw [hruns]
  dsimp only
  rw [hget, hmerge]
  rfl

/-- One of the trials has a status. -/
def SomeTrial (trials : Dict String TrialProjection) (trialIds : List String)
    (status : TrialStatus) : Prop :=
  ∃ trialId ∈ trialIds, ∃ trial, trials.get? trialId = some trial ∧ trial.status = status

theorem mem_map_endedOutcome (h : Ended trials trialIds) (outcome : TrialOutcome) :
    outcome ∈ trialIds.map (endedOutcome trials) ↔ SomeTrial trials trialIds outcome.trial := by
  rw [List.mem_map]
  refine exists_congr fun trialId ↦ and_congr_right fun htrialId ↦ ?_
  obtain ⟨trial, htrial, hterminal⟩ := h trialId htrialId
  obtain ⟨found, hfound⟩ := Option.isSome_iff_exists.mp hterminal
  rw [endedOutcome, htrial, Option.bind_some, hfound, Option.getD_some]
  have hstatus : trial.status = found.trial := by
    cases hcase : trial.status <;> rw [hcase] at hfound <;> cases hfound <;> rfl
  constructor
  · rintro rfl
    exact ⟨trial, rfl, hstatus⟩
  · rintro ⟨other, hother, hsame⟩
    obtain rfl := Option.some.inj hother
    rw [hstatus] at hsame
    cases found <;> cases outcome <;> first | rfl | cases hsame

/-- Over trials that have all ended, every two ways of splitting them into shards give the same run
status: `cancelled` if a trial is, and otherwise, with all trials scored, `complete` if a trial is, then
`failedInfrastructure` if a trial is, and `invalid`. -/
theorem runStatus_eq_runStatus (trials : Dict String TrialProjection) (trialIds : List String)
    (run : RunProjection) (first second : Sharding trialIds) (h : Ended trials trialIds) :
    ∃ status, first.runStatus run trials = .ok status ∧ second.runStatus run trials = .ok status ∧
      (status = .complete ↔
        ¬SomeTrial trials trialIds .cancelled ∧ SomeTrial trials trialIds .complete) ∧
      (status = .failedInfrastructure ↔
        ¬SomeTrial trials trialIds .cancelled ∧ ¬SomeTrial trials trialIds .complete ∧
          SomeTrial trials trialIds .failedInfrastructure) ∧
      (status = .invalid ↔
        ¬SomeTrial trials trialIds .cancelled ∧ ¬SomeTrial trials trialIds .complete ∧
          ¬SomeTrial trials trialIds .failedInfrastructure) ∧
      (status = .cancelled ↔ SomeTrial trials trialIds .cancelled) := by
  have hcancelled : .cancelled ∈ trialIds.map (endedOutcome trials) ↔
      SomeTrial trials trialIds .cancelled := mem_map_endedOutcome h .cancelled
  have hcomplete : .complete ∈ trialIds.map (endedOutcome trials) ↔
      SomeTrial trials trialIds .complete := mem_map_endedOutcome h .complete
  have hfailed : .failedInfrastructure ∈ trialIds.map (endedOutcome trials) ↔
      SomeTrial trials trialIds .failedInfrastructure := mem_map_endedOutcome h .failedInfrastructure
  have hrun (merged outcome : TrialOutcome) : merged.run = outcome.run ↔ merged = outcome := by
    cases merged <;> cases outcome <;> simp [TrialOutcome.run]
  refine ⟨_, first.runStatus_eq run h, second.runStatus_eq run h, ?_, ?_, ?_, ?_⟩
  · rw [← hcomplete, ← hcancelled, ← mergeOutcomes_eq_complete_iff]
    exact hrun _ .complete
  · rw [← hcomplete, ← hcancelled, ← hfailed, ← mergeOutcomes_eq_failedInfrastructure_iff]
    exact hrun _ .failedInfrastructure
  · rw [← hcomplete, ← hcancelled, ← hfailed, ← mergeOutcomes_eq_invalid_iff]
    exact hrun _ .invalid
  · rw [← hcancelled, ← mergeOutcomes_eq_cancelled_iff]
    exact hrun _ .cancelled

/-! ### Two trials in one shard or in two -/

def scoredTrials : Dict String TrialProjection :=
  [("trial-1", ⟨"trial-1", "shard-1", 1, .invalid, [], none, none⟩),
    ("trial-2", ⟨"trial-2", "shard-1", 2, .complete, [], none, none⟩)]

def oneShard : Sharding ["trial-1", "trial-2"] where
  shards := [⟨"shard-1", "run-1", .planned, ["trial-1", "trial-2"], none⟩]
  distinct := by decide
  nonempty := by decide
  unobserved := by decide
  covers := by decide

def twoShards : Sharding ["trial-1", "trial-2"] where
  shards := [⟨"shard-1", "run-1", .planned, ["trial-2"], none⟩,
    ⟨"shard-2", "run-1", .planned, ["trial-1"], none⟩]
  distinct := by decide
  nonempty := by decide
  unobserved := by decide
  covers := by decide

theorem runStatus_eq_runStatus_sample : ∃ status,
    oneShard.runStatus ⟨"run-1", "deployment", .planned, [], none⟩ scoredTrials = .ok status ∧
      twoShards.runStatus ⟨"run-1", "deployment", .planned, [], none⟩ scoredTrials = .ok status := by
  have hended : Ended scoredTrials ["trial-1", "trial-2"] := by
    intro trialId htrial
    simp only [List.mem_cons, List.not_mem_nil, or_false] at htrial
    rcases htrial with rfl | rfl
    · exact ⟨_, rfl, rfl⟩
    · exact ⟨_, rfl, rfl⟩
  obtain ⟨status, hfirst, hsecond, -⟩ := runStatus_eq_runStatus scoredTrials _
    ⟨"run-1", "deployment", .planned, [], none⟩ oneShard twoShards hended
  exact ⟨status, hfirst, hsecond⟩

end HarborHF.Campaign
