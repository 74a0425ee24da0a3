import Mathlib.Algebra.BigOperators.Group.List.Basic
import Mathlib.Algebra.Field.Rat
import Mathlib.Data.List.Infix
import HarborHF.Results.Selection

/-!
# Scores of composed trials

A trial's score is the value of its first metric with a preferred name, or an average. A publication
lists its metrics by what they measure and a composition by their identities, so a composed trial keeps
its score exactly when the first metric of the preferred name and the one with the least identity have
one value (`trialRewardScore_eq_iff`). An average never changes.
-/

set_option autoImplicit false

namespace HarborHF.Results

open Relational

/-- The case folding of texts. -/
class Casefolding where
  casefold : String → String

section

variable [Casefolding]

/-- The metrics that `trial_reward_score` takes into account. -/
def scoreCandidates (metrics : List MetricRow) (trialId : String) : List MetricRow :=
  metrics.filter fun metric ↦
    metric.ownerType = .trial ∧ metric.ownerId = trialId ∧ metric.unit = "score"

def rewardNames : List String := ["reward", "score", "verifier_reward"]

/-- The metrics with a name, up to case. -/
def withName (name : String) (candidates : List MetricRow) : List MetricRow :=
  candidates.filter fun metric ↦ Casefolding.casefold metric.name = name

/-- The metrics with a name that tells of a score. -/
def namedScores (candidates : List MetricRow) : List MetricRow :=
  candidates.filter fun metric ↦ ∃ term ∈ ["reward", "score", "verifier"],
    term.toList <:+: (Casefolding.casefold metric.name).toList

/-- `_select_reward_score`. -/
def selectRewardScore (candidates : List MetricRow) : Option ℚ :=
  if candidates = [] then none
  else
    match (rewardNames.flatMap fun name ↦ withName name candidates).head? with
    | some preferred => some preferred.value
    | none =>
      let selected := if namedScores candidates = [] then candidates else namedScores candidates
      some ((selected.map MetricRow.value).sum / selected.length)

/-- `trial_reward_score`. -/
def trialRewardScore (metrics : List MetricRow) (trialId : String) : Option ℚ :=
  selectRewardScore (scoreCandidates metrics trialId)

/-! ### The preferred rows -/

/-- The metrics with the first name that any of them has. -/
def preferredRows : List String → List MetricRow → List MetricRow
  | [], _ => []
  | name :: names, candidates =>
    if withName name candidates = [] then preferredRows names candidates
    else withName name candidates

/-- The mean of the candidates, of those with a telling name if there are any. -/
def averageScore (candidates : List MetricRow) : ℚ :=
  let selected := if namedScores candidates = [] then candidates else namedScores candidates
  (selected.map MetricRow.value).sum / selected.length

variable {names : List String} {candidates others : List MetricRow} {metrics : List MetricRow}
  {trialId : String} {trace : TraceValues}

theorem head?_preferredRows : (names.flatMap fun name ↦ withName name candidates).head? =
      (preferredRows names candidates).head? := by
  induction names with
  | nil => rfl
  | cons name names ih =>
    rw [List.flatMap_cons, preferredRows]
    split_ifs with hnone
    · rw [hnone, List.nil_append, ih]
    · rw [List.head?_append_of_ne_nil _ hnone]

theorem preferredRows_sublist : (preferredRows names candidates).Sublist candidates := by
  induction names with
  | nil => exact List.nil_sublist _
  | cons name names ih =>
    rw [preferredRows]
    split_ifs
    · exact ih
    · exact List.filter_sublist

theorem selectRewardScore_of_head {preferred : MetricRow}
    (h : (preferredRows rewardNames candidates).head? = some preferred) :
    selectRewardScore candidates = some preferred.value := by
  have hne : candidates ≠ [] := by
    rintro rfl
    rw [List.eq_nil_of_sublist_nil preferredRows_sublist] at h
    cases h
  rw [selectRewardScore, if_neg hne, head?_preferredRows, h]

theorem selectRewardScore_of_nil (h : preferredRows rewardNames candidates = []) :
    selectRewardScore candidates =
      if candidates = [] then none else some (averageScore candidates) := by
  rw [selectRewardScore, head?_preferredRows, h]
  rfl

omit [Casefolding] in
theorem scoreCandidates_eq : scoreCandidates metrics trialId =
    (trialMetrics trialId metrics).filter fun metric ↦ metric.unit = "score" := by
  rw [scoreCandidates, trialMetrics, List.filter_filter]
  refine List.filter_congr fun metric _ ↦ ?_
  rw [← Bool.decide_and, decide_eq_decide]
  tauto

/-! ### Rows in another order -/

theorem withName_map (name : String) : withName name (candidates.map (·.retraced trace)) =
      (withName name candidates).map (·.retraced trace) :=
  List.filter_map

theorem preferredRows_map : preferredRows names (candidates.map (·.retraced trace)) =
      (preferredRows names candidates).map (·.retraced trace) := by
  induction names with
  | nil => rfl
  | cons name names ih =>
    rw [preferredRows, preferredRows, withName_map]
    simp only [List.map_eq_nil_iff]
    split_ifs
    · exact ih
    · rfl

theorem averageScore_map :
    averageScore (candidates.map (·.retraced trace)) = averageScore candidates := by
  have hnamed : namedScores (candidates.map (·.retraced trace)) =
      (namedScores candidates).map (·.retraced trace) := List.filter_map
  have hvalues (list : List MetricRow) :
      (list.map (·.retraced trace)).map MetricRow.value = list.map MetricRow.value := by
    rw [List.map_map]
    rfl
  simp only [averageScore, hnamed, List.map_eq_nil_iff]
  split_ifs
  · rw [hvalues, List.length_map]
  · rw [hvalues, List.length_map]

/-- A score does not depend on the publication of its rows. -/
theorem selectRewardScore_map :
    selectRewardScore (candidates.map (·.retraced trace)) = selectRewardScore candidates := by
  cases hrows : preferredRows rewardNames candidates with
  | nil =>
    rw [selectRewardScore_of_nil hrows, selectRewardScore_of_nil (by rw [preferredRows_map, hrows]; rfl)]
    simp only [List.map_eq_nil_iff, averageScore_map]
  | cons first rest =>
    have hhead : (preferredRows rewardNames candidates).head? = some first := by rw [hrows]; rfl
    have hmap : (preferredRows rewardNames (candidates.map (·.retraced trace))).head? =
        some (first.retraced trace) := by
      rw [preferredRows_map, hrows]
      rfl
    rw [selectRewardScore_of_head hhead, selectRewardScore_of_head hmap]
    rfl

theorem averageScore_perm (h : others.Perm candidates) :
    averageScore others = averageScore candidates := by
  have hnamed : (namedScores others).Perm (namedScores candidates) := h.filter _
  have hnil : namedScores others = [] ↔ namedScores candidates = [] :=
    ⟨fun heq ↦ (heq ▸ hnamed).nil_eq.symm, fun heq ↦ (heq ▸ hnamed).eq_nil⟩
  have hmean (first second : List MetricRow) (hperm : first.Perm second) :
      (first.map MetricRow.value).sum / first.length =
        (second.map MetricRow.value).sum / (second.length : ℚ) := by
    rw [(hperm.map _).sum_eq, hperm.length_eq]
  simp only [averageScore, hnil]
  split_ifs
  · exact hmean _ _ h
  · exact hmean _ _ hnamed

/-- The candidates by the identities of their metrics. -/
def byMetricId (candidates : List MetricRow) : List MetricRow :=
  candidates.insertionSort fun first second ↦ first.metricId ≤ second.metricId

omit [Casefolding] in
theorem perm_byMetricId : (byMetricId candidates).Perm candidates := List.perm_insertionSort _ _

theorem preferredRows_byMetricId :
    preferredRows names (byMetricId candidates) = byMetricId (preferredRows names candidates) := by
  have hwith (name : String) :
      withName name (byMetricId candidates) = byMetricId (withName name candidates) :=
    filter_insertionSort _
  have hnil (list : List MetricRow) : byMetricId list = [] ↔ list = [] := by
    rw [← List.length_eq_zero_iff, perm_byMetricId.length_eq, List.length_eq_zero_iff]
  induction names with
  | nil => rfl
  | cons name names ih =>
    rw [preferredRows, preferredRows, hwith]
    simp only [hnil]
    split_ifs
    · exact ih
    · rfl

omit [Casefolding] in
/-- The first of the ordered candidates has the least identity. -/
theorem least_of_head {least : MetricRow} (h : (byMetricId candidates).head? = some least) :
    least ∈ candidates ∧ ∀ other ∈ candidates, least.metricId ≤ other.metricId := by
  obtain ⟨rest, hrest⟩ := List.head?_eq_some_iff.mp h
  have hperm : (byMetricId candidates).Perm candidates := perm_byMetricId
  have hsorted := List.pairwise_insertionSort
    (fun first second : MetricRow ↦ first.metricId ≤ second.metricId) candidates
  rw [show candidates.insertionSort _ = least :: rest from hrest, List.pairwise_cons] at hsorted
  rw [hrest] at hperm
  refine ⟨hperm.mem_iff.mp List.mem_cons_self, fun other hother ↦ ?_⟩
  rcases List.mem_cons.mp (hperm.mem_iff.mpr hother) with rfl | hmem
  · exact le_refl _
  · exact hsorted.1 other hmem

/-- The first row and the one with the least identity have one value. -/
def Agrees (rows : List MetricRow) : Prop :=
  ∀ first least, rows.head? = some first → least ∈ rows →
    (∀ row ∈ rows, least.metricId ≤ row.metricId) → first.value = least.value

/-- Ordering candidates with different identities keeps their score exactly when the preferred rows
agree. -/
theorem selectRewardScore_byMetricId (h : (candidates.map MetricRow.metricId).Nodup) :
    selectRewardScore (byMetricId candidates) = selectRewardScore candidates ↔
      Agrees (preferredRows rewardNames candidates) := by
  cases hrows : preferredRows rewardNames candidates with
  | nil =>
    have hagrees : Agrees [] := by
      rintro first least ⟨⟩
    rw [iff_true_right hagrees, selectRewardScore_of_nil hrows, selectRewardScore_of_nil
      (by rw [preferredRows_byMetricId, hrows]; rfl), averageScore_perm perm_byMetricId]
    simp only [← List.length_eq_zero_iff, perm_byMetricId.length_eq]
  | cons first rest =>
    obtain ⟨least, hhead⟩ : ∃ least, (byMetricId (first :: rest)).head? = some least := by
      refine Option.isSome_iff_exists.mp (List.isSome_head?.mpr fun hnil ↦ ?_)
      have hperm : (byMetricId (first :: rest)).Perm (first :: rest) := perm_byMetricId
      rw [hnil] at hperm
      cases hperm.nil_eq
    have hfirst : (preferredRows rewardNames candidates).head? = some first := by rw [hrows]; rfl
    have hordered : (preferredRows rewardNames (byMetricId candidates)).head? = some least := by
      rw [preferredRows_byMetricId, hrows, hhead]
    obtain ⟨hmem, hleast⟩ := least_of_head hhead
    rw [selectRewardScore_of_head hfirst, selectRewardScore_of_head hordered, Option.some_inj]
    constructor
    · rintro heq other smallest ⟨⟩ hsmallest hall
      have hids : smallest.metricId = least.metricId :=
        le_antisymm (hall least hmem) (hleast smallest hsmallest)
      have hsub (row : MetricRow) (hrow : row ∈ first :: rest) : row ∈ candidates :=
        preferredRows_sublist.subset (hrows ▸ hrow)
      rw [List.inj_on_of_nodup_map h (hsub smallest hsmallest) (hsub least hmem) hids, heq]
    · intro hagrees
      exact (hagrees first least rfl hmem hleast).symm

/-! ### Composed trials -/

end

section

variable [Casefolding] [ResultDigests] {manifest : ResultCompositionManifest}
  {sources : Dict String ResultTables} {tables result : ResultTables} {trial : TrialRow}
  {controlCommit : String}

/-- A composed trial has the score of its source exactly when, among the rows of the first preferred
name it has, the first in its source and the one with the least identity have one value. -/
theorem trialRewardScore_eq_iff (h : composeResultTables manifest sources controlCommit = .ok result)
    (hchosen : Chosen manifest sources trial tables) :
    trialRewardScore result.metrics trial.trialId = trialRewardScore tables.metrics trial.trialId ↔
      Agrees (preferredRows rewardNames (scoreCandidates tables.metrics trial.trialId)) := by
  obtain ⟨base, selected, -, hcomposes⟩ := composes_of_composeResultTables h
  have hrow : (trial, tables) ∈ selected := (hcomposes.selects.mem_iff _).mpr hchosen
  have hids : ((scoreCandidates tables.metrics trial.trialId).map MetricRow.metricId).Nodup := by
    have hsublist : ((scoreCandidates tables.metrics trial.trialId).map MetricRow.metricId).Sublist
        ((trialMetrics trial.trialId (composedMetrics manifest selected result.run.trace)).map
          MetricRow.metricId) := by
      rw [hcomposes.trialMetrics_of_mem hrow, List.map_map, scoreCandidates_eq]
      exact List.filter_sublist.map _
    exact (hsublist.trans (List.filter_sublist.map _)).nodup hcomposes.nodup_metrics
  have hordered : scoreCandidates result.metrics trial.trialId =
      (byMetricId (scoreCandidates tables.metrics trial.trialId)).map
        (·.retraced result.run.trace) := by
    rw [scoreCandidates_eq, hcomposes.trialMetrics_metrics, hcomposes.trialMetrics_of_mem hrow,
      filter_insertionSort, List.filter_map, scoreCandidates_eq, byMetricId]
    symm
    exact List.map_insertionSort (fun first second : MetricRow ↦ first.metricId ≤ second.metricId)
      (fun first second : MetricRow ↦ first.metricId ≤ second.metricId) _ _ fun _ _ _ _ ↦ Iff.rfl
  rw [trialRewardScore, trialRewardScore, hordered, selectRewardScore_map,
    selectRewardScore_byMetricId hids]

end

/-! ### Two rows that fold to one name -/

/-- Folds the letters that ASCII has. -/
local instance asciiCasefolding : Casefolding where
  casefold text := String.ofList (text.toList.map Char.toLower)

attribute [local instance] spelledDigests

def trialScore (metricId name : String) (value : ℚ) : MetricRow :=
  { trace := singleTrace, metricId, ownerType := .trial, ownerId := "trial-1", name, value,
    unit := "score", aggregation := none }

/-- A publication lists the upper case first, whose identity is the greater. -/
def foldedRows (value : ℚ) : List MetricRow :=
  [trialScore "metric-2" "Reward" 1, trialScore "metric-1" "reward" value]

def foldedSources (value : ℚ) : Dict String ResultTables :=
  [("publication-1", singleTables "execution-1" (foldedRows value))]

/-- The composed score of rows that fold to one name is that of the least identity. -/
theorem trialRewardScore_folded :
    ∀ value ∈ ([0, 1] : List ℚ), ∃ result, composeResultTables singleManifest (foldedSources value)
        "0123456789012345678901234567890123456789" = .ok result ∧
      trialRewardScore result.metrics "trial-1" = some value := by
  have hscore : ∀ value ∈ ([0, 1] : List ℚ),
      (composeResultTables singleManifest (foldedSources value)
        "0123456789012345678901234567890123456789").toOption.map
          (fun result ↦ trialRewardScore result.metrics "trial-1") = some (some value) := by
    decide +kernel
  intro value hvalue
  obtain ⟨result, hresult, hvalue⟩ := Option.map_eq_some_iff.mp (hscore value hvalue)
  refine ⟨result, ?_, hvalue⟩
  cases hcompose : composeResultTables singleManifest (foldedSources value)
      "0123456789012345678901234567890123456789" with
  | error error =>
    rw [hcompose] at hresult
    cases hresult
  | ok composed =>
    rw [hcompose] at hresult
    cases hresult
    rfl

/-- A composition takes the score of another metric than its source. -/
theorem trialRewardScore_ne_folded :
    ∃ result trial tables, composeResultTables singleManifest (foldedSources 0)
        "0123456789012345678901234567890123456789" = .ok result ∧
      Chosen singleManifest (foldedSources 0) trial tables ∧
      trialRewardScore result.metrics trial.trialId ≠ trialRewardScore tables.metrics trial.trialId := by
  obtain ⟨result, hresult, hscore⟩ := trialRewardScore_folded 0 (by simp)
  refine ⟨result, _, singleTables "execution-1" (foldedRows 0), hresult,
    chosen_single List.mem_cons_self rfl, ?_⟩
  rw [hscore]
  decide +kernel

theorem trialRewardScore_eq_iff_single :
    ∃ result trial tables, composeResultTables singleManifest (foldedSources 1)
        "0123456789012345678901234567890123456789" = .ok result ∧
      Chosen singleManifest (foldedSources 1) trial tables ∧
      trialRewardScore result.metrics trial.trialId = trialRewardScore tables.metrics trial.trialId := by
  obtain ⟨result, hresult, -⟩ := trialRewardScore_folded 1 (by simp)
  have hchosen : Chosen singleManifest (foldedSources 1) _
      (singleTables "execution-1" (foldedRows 1)) := chosen_single List.mem_cons_self rfl
  refine ⟨result, _, _, hresult, hchosen, (trialRewardScore_eq_iff hresult hchosen).mpr ?_⟩
  have hrows : preferredRows rewardNames
      (scoreCandidates (singleTables "execution-1" (foldedRows 1)).metrics "trial-1") =
        foldedRows 1 := by
    decide +kernel
  have hvalue : ∀ row ∈ foldedRows 1, row.value = 1 := by
    simp [foldedRows, trialScore]
  intro first least hfirst hleast _
  rw [show _ = foldedRows 1 from hrows] at hfirst hleast
  rw [hvalue first (List.mem_of_head? hfirst), hvalue least hleast]

end HarborHF.Results
