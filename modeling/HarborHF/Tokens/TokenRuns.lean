import HarborHF.Tokens.TokenStore
import Mathlib.Algebra.Order.BigOperators.Group.List
import Mathlib.Algebra.Order.Group.Nat
import Mathlib.Data.List.Flatten

/-!
# The token store stays readable

What is written for valid tokens is read back if they are not more than 256
(`loadHarborHfTokens_encodeTokens`), so a call that finds the store readable leaves it so unless it
stores one more token beside 256, and a call that fails leaves it alone unless it fails after the
file is replaced (`readable_iff`).
-/

set_option autoImplicit false

namespace HarborHF.TokenStore

open Async CodePoints ConfigFile Relational

/-! ### What is written is read back -/

/-- A name and a token that pass their checks. -/
def ValidToken (entry : Text × Text) : Prop :=
  validateTokenName entry.1 = .ok () ∧ validateTokenValue entry.2 = .ok ()

theorem newline_notMem {value : Text} (h : value.any isControl = false) : newline ∉ value :=
  fun hmem ↦ Bool.eq_false_iff.mp h (List.any_eq_true.mpr ⟨newline, hmem, by decide⟩)

theorem sectionName_of_valid {name : Text} (h : validateTokenName name = .ok ()) :
    SectionName name := by
  unfold validateTokenName at h
  split_ifs at h with hstrip _ hdefault hcontrol
  exact ⟨fun hnil ↦ hstrip (.inl hnil), hdefault, newline_notMem (Bool.eq_false_iff.mpr hcontrol)⟩

theorem optionValue_of_valid {token : Text} (h : validateTokenValue token = .ok ()) :
    OptionValue token := by
  unfold validateTokenValue at h
  by_cases hstrip : token = [] ∨ token ≠ strip token
  · rw [if_pos hstrip] at h
    cases h
  rw [if_neg hstrip] at h
  obtain ⟨hne, htrimmed⟩ := not_or.mp hstrip
  split at h
  · cases h
  · split_ifs at h with _ hcontrol
    exact ⟨hne, trimmed_of_strip_eq (not_not.mp htrimmed).symm,
      newline_notMem (Bool.eq_false_iff.mpr hcontrol)⟩

theorem optionName_hfToken : OptionName hfToken where
  nonempty := by decide
  trimmed := by
    constructor <;> rintro code ⟨⟩ <;> decide
  oneLine := by decide
  notHeader := by decide
  notComment := by
    rintro code ⟨⟩
    decide
  noDelimiter code hcode := by
    have hall : hfToken.all (fun code ↦ !isDelimiter code) = true := by decide
    simpa using List.all_eq_true.mp hall code hcode

theorem readToken_of_valid {entry : Text × Text} (h : ValidToken entry) :
    readToken entry.1 [(hfToken, entry.2)] = .ok entry := by
  refine bind_eq_ok.mpr ⟨(), h.1, ?_⟩
  dsimp only
  rw [if_neg (not_not.mpr rfl)]
  exact bind_eq_ok.mpr ⟨(), h.2, rfl⟩

theorem perm_sortedTokens (tokens : Tokens) : (sortedTokens tokens).Perm tokens :=
  List.perm_insertionSort _ tokens

section Written

variable {tokens : Tokens} {payload : ByteArray}

theorem exists_encode_of_encodeTokens (h : encodeTokens tokens = .ok payload) :
    encode (write (singleSections hfToken (sortedTokens tokens))) = some payload ∧
      payload.size ≤ maxTokenStoreBytes := by
  unfold encodeTokens at h
  split at h
  · cases h
  · next octets hencode =>
    split_ifs at h with hsize
    cases h
    exact ⟨hencode, Nat.not_lt.mp hsize⟩

/-- Reading what was written for valid tokens counts them. -/
theorem loadHarborHfTokens_encodeTokens (h : encodeTokens tokens = .ok payload)
    (hnodup : tokens.keys.Nodup) (hvalid : ∀ entry ∈ tokens, ValidToken entry) :
    loadHarborHfTokens (some payload) =
      if maxTokenCount < tokens.length then
        .error (.value "Harbor HF token store exceeds the 256-token limit")
      else .ok (sortedTokens tokens) := by
  obtain ⟨hencode, hsize⟩ := exists_encode_of_encodeTokens h
  have hperm := perm_sortedTokens tokens
  have hkeys : (sortedTokens tokens).keys.Nodup := (hperm.map Prod.fst).nodup_iff.mpr hnodup
  have hsorted (entry : Text × Text) (hentry : entry ∈ sortedTokens tokens) : ValidToken entry :=
    hvalid entry (hperm.mem_iff.mp hentry)
  have hread := readString_write optionName_hfToken hkeys
    (fun entry hentry ↦ sectionName_of_valid (hsorted entry hentry).1)
    fun entry hentry ↦ optionValue_of_valid (hsorted entry hentry).2
  rw [loadHarborHfTokens, if_neg (Nat.not_lt.mpr hsize), parseTokenStore, decode_encode hencode]
  dsimp only
  rw [hread]
  dsimp only
  rw [if_neg (not_not.mpr rfl), singleSections, List.length_map, hperm.length_eq]
  refine ite_congr rfl (fun _ ↦ rfl) fun _ ↦ mapM_eq_ok.mpr ?_
  refine List.forall₂_map_left_iff.mpr (List.forall₂_same.mpr fun entry hentry ↦ ?_)
  exact readToken_of_valid (hsorted entry hentry)

end Written

/-! ### Tokens in another order -/

section Order

variable {tokens others : Tokens}

/-- A text that can be encoded within the limit. -/
def Fits (content : Text) : Prop :=
  content.all isScalar = true ∧ (content.map width).sum ≤ maxTokenStoreBytes

theorem exists_encodeTokens_iff_sorted : (∃ payload, encodeTokens tokens = .ok payload) ↔
    Fits (write (singleSections hfToken (sortedTokens tokens))) := by
  constructor
  · rintro ⟨payload, h⟩
    obtain ⟨hencode, hsize⟩ := exists_encode_of_encodeTokens h
    have hsum := size_of_encode hencode
    unfold encode at hencode
    split_ifs at hencode with hscalar
    exact ⟨hscalar, hsum ▸ hsize⟩
  · rintro ⟨hscalar, hsize⟩
    obtain ⟨payload, hencode⟩ : ∃ payload,
        encode (write (singleSections hfToken (sortedTokens tokens))) = some payload :=
      ⟨_, if_pos hscalar⟩
    rw [← size_of_encode hencode] at hsize
    refine ⟨payload, ?_⟩
    rw [encodeTokens, hencode]
    exact if_neg (Nat.not_lt.mpr hsize)

theorem Fits.of_perm {content content' : Text} (h : Fits content) (hperm : content.Perm content') :
    Fits content' := by
  refine ⟨List.all_eq_true.mpr fun code hcode ↦ ?_, ?_⟩
  · exact List.all_eq_true.mp h.1 code (hperm.mem_iff.mpr hcode)
  · rw [← (hperm.map width).sum_nat]
    exact h.2

theorem Fits.of_sublist {content content' : Text} (h : Fits content)
    (hsublist : content'.Sublist content) : Fits content' := by
  refine ⟨List.all_eq_true.mpr fun code hcode ↦ ?_, ?_⟩
  · exact List.all_eq_true.mp h.1 code (hsublist.subset hcode)
  · exact ((hsublist.map width).sum_le_sum fun _ _ ↦ Nat.zero_le _).trans h.2

theorem exists_encodeTokens_iff : (∃ payload, encodeTokens tokens = .ok payload) ↔
    Fits (write (singleSections hfToken tokens)) := by
  have hperm : (write (singleSections hfToken (sortedTokens tokens))).Perm
      (write (singleSections hfToken tokens)) :=
    ((perm_sortedTokens tokens).map _).flatMap_right _
  rw [exists_encodeTokens_iff_sorted]
  exact ⟨fun h ↦ h.of_perm hperm, fun h ↦ h.of_perm hperm.symm⟩

theorem exists_encodeTokens_of_perm (h : tokens.Perm others)
    (hencode : ∃ payload, encodeTokens tokens = .ok payload) :
    ∃ payload, encodeTokens others = .ok payload := by
  rw [exists_encodeTokens_iff] at hencode ⊢
  exact hencode.of_perm ((h.map _).flatMap_right _)

theorem exists_encodeTokens_of_sublist (h : others.Sublist tokens)
    (hencode : ∃ payload, encodeTokens tokens = .ok payload) :
    ∃ payload, encodeTokens others = .ok payload := by
  rw [exists_encodeTokens_iff] at hencode ⊢
  exact hencode.of_sublist ((h.map _).flatMap _)

end Order

/-! ### One call -/

/-- The checks of a call before it writes. -/
def Call.Checked (tokens : Tokens) : Call → Prop
  | save others _ => others.length ≤ maxTokenCount ∧ ∀ entry ∈ others, ValidToken entry
  | store name token replace =>
    ValidToken (name, token) ∧ ((tokens.get? name).isSome = true → replace = true)
  | remove name => validateTokenName name = .ok () ∧ (tokens.get? name).isSome = true

/-- The checks pass, and the tokens of the call can be written. -/
def Call.Accepted (tokens : Tokens) (call : Call) : Prop :=
  call.Checked tokens ∧ ∃ payload, encodeTokens (call.applied tokens) = .ok payload

/-- How a call ends that has tokens to write. -/
def saved (fault : Fault) (file : Option ByteArray) (tokens : Tokens) :
    Except StoreError Unit × Option ByteArray :=
  match encodeTokens tokens, fault with
  | .error error, _ => (.error error, file)
  | .ok payload, .none => (.ok (), some payload)
  | .ok _, .before => (.error .system, file)
  | .ok payload, .after => (.error .system, some payload)

theorem exec_saveUnlocked (fault : Fault) (tokens : Tokens) (file : Option ByteArray) :
    (saveUnlocked fault tokens).exec file = saved fault file tokens := by
  unfold saveUnlocked saved
  cases encodeTokens tokens with
  | error error => rfl
  | ok payload =>
    cases fault with
    | none => rfl
    | before => rfl
    | after => rfl

theorem validatedTokens_eq_ok {tokens normalized : Tokens} :
    validatedTokens tokens = .ok normalized ↔
      (tokens.length ≤ maxTokenCount ∧ ∀ entry ∈ tokens, ValidToken entry) ∧
        normalized = tokens := by
  have hforM : (tokens.forM fun entry ↦ do
      validateTokenName entry.1
      validateTokenValue entry.2) = .ok () ↔ ∀ entry ∈ tokens, ValidToken entry := by
    refine forM_eq_ok.trans (forall₂_congr fun entry _ ↦ ?_)
    exact bind_eq_ok.trans ⟨fun ⟨_, h, h'⟩ ↦ ⟨h, h'⟩, fun h ↦ ⟨(), h.1, h.2⟩⟩
  unfold validatedTokens
  by_cases hcount : maxTokenCount < tokens.length
  · rw [if_pos hcount]
    exact ⟨nofun, fun h ↦ (Nat.not_le.mpr hcount h.1.1).elim⟩
  · rw [if_neg hcount, bind_eq_ok]
    constructor
    · rintro ⟨_, hall, h⟩
      exact ⟨⟨Nat.not_lt.mp hcount, hforM.mp hall⟩, (Except.ok.inj h).symm⟩
    · rintro ⟨⟨-, hall⟩, rfl⟩
      exact ⟨(), hforM.mpr hall, rfl⟩

/-- A call does what its checks say, and then writes. -/
theorem exec_act (fault : Fault) {file : Option ByteArray} {tokens : Tokens}
    (hload : loadHarborHfTokens file = .ok tokens) (call : Call) : (call.Checked tokens →
      (call.act fault).exec file = saved fault file (call.applied tokens)) ∧
    (¬ call.Checked tokens → ∃ error, (call.act fault).exec file = (.error error, file)) := by
  cases call with
  | save others hnodup =>
    constructor
    · intro hchecked
      have hvalid := validatedTokens_eq_ok.mpr ⟨hchecked, rfl⟩
      show (saveHarborHfTokens fault others).exec file = _
      rw [saveHarborHfTokens, hvalid]
      exact exec_saveUnlocked fault others file
    · intro hchecked
      show ∃ error, (saveHarborHfTokens fault others).exec file = _
      rw [saveHarborHfTokens]
      cases hvalid : validatedTokens others with
      | error error => exact ⟨error, rfl⟩
      | ok normalized => exact (hchecked (validatedTokens_eq_ok.mp hvalid).1).elim
  | store name token replace =>
    constructor
    · rintro ⟨⟨hname, htoken⟩, hreplace⟩
      have hfree : ¬((tokens.get? name).isSome = true ∧ replace = false) :=
        fun h ↦ Bool.eq_false_iff.mp h.2 (hreplace h.1)
      show (storeHarborHfToken fault name token replace).exec file = _
      rw [storeHarborHfToken, hname, htoken]
      show Procedure.exec (Procedure.ofExcept (loadHarborHfTokens file) >>= _) file = _
      rw [hload]
      show Procedure.exec (if _ then _ else _) file = _
      rw [if_neg hfree]
      exact exec_saveUnlocked fault _ file
    · intro hchecked
      show ∃ error, (storeHarborHfToken fault name token replace).exec file = _
      rw [storeHarborHfToken]
      cases hname : validateTokenName name with
      | error error => exact ⟨error, rfl⟩
      | ok _ =>
        cases htoken : validateTokenValue token with
        | error error => exact ⟨error, rfl⟩
        | ok _ =>
          refine ⟨.alreadySaved name, ?_⟩
          have hsaved : (tokens.get? name).isSome = true ∧ replace = false := by
            by_contra hfree
            refine hchecked ⟨⟨hname, htoken⟩, fun hsome ↦ ?_⟩
            exact Bool.eq_true_of_not_eq_false fun hfalse ↦ hfree ⟨hsome, hfalse⟩
          show Procedure.exec (Procedure.ofExcept (loadHarborHfTokens file) >>= _) file = _
          rw [hload]
          show Procedure.exec (if _ then _ else _) file = _
          rw [if_pos hsaved]
          rfl
  | remove name =>
    constructor
    · rintro ⟨hname, hsome⟩
      show (removeHarborHfToken fault name).exec file = _
      rw [removeHarborHfToken, hname]
      show Procedure.exec (Procedure.ofExcept (loadHarborHfTokens file) >>= _) file = _
      rw [hload]
      show Procedure.exec (if _ then _ else _) file = _
      rw [if_neg (Option.isSome_iff_ne_none.mp hsome)]
      exact exec_saveUnlocked fault _ file
    · intro hchecked
      show ∃ error, (removeHarborHfToken fault name).exec file = _
      rw [removeHarborHfToken]
      cases hname : validateTokenName name with
      | error error => exact ⟨error, rfl⟩
      | ok _ =>
        refine ⟨.notSaved name, ?_⟩
        have hnone : tokens.get? name = none :=
          Option.not_isSome_iff_eq_none.mp fun hsome ↦ hchecked ⟨hname, hsome⟩
        show Procedure.exec (Procedure.ofExcept (loadHarborHfTokens file) >>= _) file = _
        rw [hload]
        show Procedure.exec (if _ then _ else _) file = _
        rw [if_pos hnone]
        rfl

/-! ### The same tokens -/

/-- The same token for every name. -/
def Same (first second : Tokens) : Prop := ∀ name, first.get? name = second.get? name

section Same

variable {tokens others : Tokens}

theorem same_of_perm (h : tokens.Perm others) (hnodup : tokens.keys.Nodup) : Same tokens others := by
  intro name
  have hothers : others.keys.Nodup := (h.map Prod.fst).nodup_iff.mp hnodup
  refine Option.ext fun token ↦ ?_
  rw [Dict.get?_eq_some_iff hnodup, Dict.get?_eq_some_iff hothers, h.mem_iff]

theorem perm_of_same (h : Same tokens others) (hnodup : tokens.keys.Nodup)
    (hothers : others.keys.Nodup) : tokens.Perm others := by
  refine (List.perm_ext_iff_of_nodup hnodup.of_map hothers.of_map).mpr fun entry ↦ ?_
  rw [← Dict.get?_eq_some_iff hnodup, ← Dict.get?_eq_some_iff hothers, h entry.1]

theorem nodup_applied (h : tokens.keys.Nodup) (call : Call) : (call.applied tokens).keys.Nodup := by
  cases call with
  | save others hothers => exact hothers
  | store name token replace => exact Dict.nodup_keys_set h
  | remove name => exact (List.filter_sublist.map Prod.fst).nodup h

theorem same_applied (h : Same tokens others) (call : Call) :
    Same (call.applied tokens) (call.applied others) := by
  intro name
  cases call with
  | save _ _ => rfl
  | store other token replace =>
    show Dict.get? (Dict.set _ _ _) _ = Dict.get? (Dict.set _ _ _) _
    rw [Dict.get?_set, Dict.get?_set, h name]
  | remove other =>
    show Dict.get? (Dict.erase _ _) _ = Dict.get? (Dict.erase _ _) _
    by_cases heq : name = other
    · rw [heq, Dict.get?_erase_self, Dict.get?_erase_self]
    · rw [Dict.get?_erase_of_ne heq, Dict.get?_erase_of_ne heq, h name]

theorem perm_applied (h : tokens.Perm others) (hnodup : tokens.keys.Nodup) (call : Call) :
    (call.applied tokens).Perm (call.applied others) :=
  perm_of_same (same_applied (same_of_perm h hnodup) call) (nodup_applied hnodup call)
    (nodup_applied ((h.map Prod.fst).nodup_iff.mp hnodup) call)

theorem checked_of_same (h : Same tokens others) {call : Call} (hchecked : call.Checked tokens) :
    call.Checked others := by
  cases call with
  | save _ _ => exact hchecked
  | store name token replace => exact ⟨hchecked.1, fun hsome ↦ hchecked.2 (h name ▸ hsome)⟩
  | remove name => exact ⟨hchecked.1, h name ▸ hchecked.2⟩

theorem accepted_of_perm (h : tokens.Perm others) (hnodup : tokens.keys.Nodup) {call : Call}
    (haccepted : call.Accepted tokens) : call.Accepted others :=
  ⟨checked_of_same (same_of_perm h hnodup) haccepted.1,
    exists_encodeTokens_of_perm (perm_applied h hnodup call) haccepted.2⟩

theorem valid_applied (hnodup : tokens.keys.Nodup) (hvalid : ∀ entry ∈ tokens, ValidToken entry)
    (call : Call) (hchecked : call.Checked tokens) :
    ∀ entry ∈ call.applied tokens, ValidToken entry := by
  intro entry hentry
  cases call with
  | save others _ => exact hchecked.2 entry hentry
  | store name token replace =>
    rw [← Dict.get?_eq_some_iff (nodup_applied hnodup (.store name token replace))] at hentry
    have hget : (if entry.1 = name then some token else tokens.get? entry.1) = some entry.2 := by
      rw [← hentry]
      exact Dict.get?_set.symm
    split_ifs at hget with heq
    · have hstored : entry = (name, token) := Prod.ext heq (Option.some.inj hget).symm
      rw [hstored]
      exact hchecked.1
    · exact hvalid entry ((Dict.get?_eq_some_iff hnodup).mp hget)
  | remove name => exact hvalid entry (List.mem_of_mem_filter hentry)

end Same

/-! ### Runs -/

/-- One call, and how it fares. -/
structure Step where
  call : Call
  fault : Fault

/-- What a run has reached: the file, and the tokens of the calls that have succeeded. -/
structure Reached where
  file : Option ByteArray
  tokens : Tokens

def Reached.advance (reached : Reached) (step : Step) : Reached :=
  match (step.call.act step.fault).exec reached.file with
  | (.ok _, file) => ⟨file, step.call.applied reached.tokens⟩
  | (.error _, file) => ⟨file, reached.tokens⟩

/-- A run that starts without a file. -/
def reached (steps : List Step) : Reached := steps.foldl Reached.advance ⟨none, []⟩

/-- The tokens of the calls that have succeeded are read, and each of them can be removed. -/
structure Readable (at' : Reached) : Prop where
  loads : ∃ loaded, loadHarborHfTokens at'.file = .ok loaded ∧ loaded.keys.Nodup ∧
    Same loaded at'.tokens
  removes : ∀ name, (at'.tokens.get? name).isSome = true → ∃ later,
    (removeHarborHfToken .none name).exec at'.file = (.ok (), later) ∧
      ∃ loaded, loadHarborHfTokens later = .ok loaded ∧ Same loaded (at'.tokens.erase name)

/-- A call that raises an error leaves the tokens that are read as they were. -/
def Unchanged (at' : Reached) (step : Step) : Prop :=
  (∃ error, ((step.call.act step.fault).exec at'.file).1 = .error error) →
    ∀ loaded, loadHarborHfTokens at'.file = .ok loaded →
      ∃ later, loadHarborHfTokens (at'.advance step).file = .ok later ∧ Same later loaded

/-- The call stores a token under a new name beside 256 others. -/
def Call.Crowds (tokens : Tokens) : Call → Prop
  | store name _ _ => tokens.get? name = none ∧ maxTokenCount ≤ tokens.length
  | _ => False

/-- A call that gets to replace the file stores no token beside 256 others, and does not fail after
that, unless it writes the tokens that were there. -/
def Step.Harmless (tokens : Tokens) (step : Step) : Prop :=
  step.call.Accepted tokens → step.fault ≠ .before →
    ¬ step.call.Crowds tokens ∧ (step.fault = .after → Same (step.call.applied tokens) tokens)

/-- The file holds the tokens. -/
structure Holds (at' : Reached) : Prop where
  nodup : at'.tokens.keys.Nodup
  valid : ∀ entry ∈ at'.tokens, ValidToken entry
  count : at'.tokens.length ≤ maxTokenCount
  written : ∃ loaded, loadHarborHfTokens at'.file = .ok loaded ∧ loaded.Perm at'.tokens ∧
    ∃ payload, encodeTokens loaded = .ok payload

section Holds

variable {at' : Reached} {step : Step} {tokens written : Tokens} {payload : ByteArray}

theorem holds_start : Holds ⟨none, []⟩ where
  nodup := List.nodup_nil
  valid := nofun
  count := Nat.zero_le _
  written := ⟨[], rfl, .refl _, exists_encodeTokens_iff.mpr ⟨rfl, Nat.zero_le _⟩⟩

/-- A file that was written for the tokens holds them. -/
theorem holds_of_encodeTokens (hencode : encodeTokens written = .ok payload)
    (hperm : written.Perm tokens) (hnodup : tokens.keys.Nodup)
    (hvalid : ∀ entry ∈ tokens, ValidToken entry) (hcount : tokens.length ≤ maxTokenCount) :
    Holds ⟨some payload, tokens⟩ where
  nodup := hnodup
  valid := hvalid
  count := hcount
  written := by
    refine ⟨sortedTokens written, ?_, (perm_sortedTokens written).trans hperm,
      exists_encodeTokens_of_perm (perm_sortedTokens written).symm ⟨payload, hencode⟩⟩
    rw [loadHarborHfTokens_encodeTokens hencode ((hperm.map Prod.fst).nodup_iff.mpr hnodup)
      fun entry hentry ↦ hvalid entry (hperm.mem_iff.mp hentry), hperm.length_eq,
      if_neg (Nat.not_lt.mpr hcount)]

theorem length_applied_le (h : Holds at') (call : Call) (hchecked : call.Checked at'.tokens)
    (hcrowds : ¬ call.Crowds at'.tokens) : (call.applied at'.tokens).length ≤ maxTokenCount := by
  cases call with
  | save others _ => exact hchecked.1
  | store name token replace =>
    have hlength : (at'.tokens.set name token).keys.length ≤ maxTokenCount := by
      rw [Dict.keys_set]
      split_ifs with hmem
      · rw [Dict.keys, List.length_map]
        exact h.count
      · rw [List.length_append, List.length_singleton, Dict.keys, List.length_map]
        exact Nat.not_le.mp fun hle ↦ hcrowds ⟨Dict.get?_eq_none_iff.mpr hmem, hle⟩
    rwa [Dict.keys, List.length_map] at hlength
  | remove name => exact (List.length_filter_le _ _).trans h.count

theorem length_applied_of_crowds {call : Call} (h : call.Crowds tokens) :
    maxTokenCount < (call.applied tokens).length := by
  cases call with
  | save _ _ => exact h.elim
  | store name token replace =>
    show maxTokenCount < (tokens.set name token).length
    rw [Dict.set_of_get?_eq_none h.1, List.length_append]
    exact Nat.lt_succ_of_le h.2
  | remove name => exact h.elim

theorem Holds.accepted_iff (h : Holds at') {loaded : Tokens} (hperm : loaded.Perm at'.tokens)
    (call : Call) : call.Accepted loaded ↔ call.Accepted at'.tokens := by
  have hnodup := (hperm.map Prod.fst).nodup_iff.mpr h.nodup
  exact ⟨accepted_of_perm hperm hnodup, accepted_of_perm hperm.symm h.nodup⟩

/-- A call that is not accepted leaves the file alone, and so does one that fails before it. -/
theorem Holds.exec_refused (h : Holds at') (step : Step)
    (hrefused : step.call.Accepted at'.tokens → step.fault = .before) :
    ∃ error, (step.call.act step.fault).exec at'.file = (.error error, at'.file) := by
  obtain ⟨loaded, hload, hperm, -⟩ := h.written
  obtain ⟨hexec, hfail⟩ := exec_act step.fault hload step.call
  by_cases hchecked : step.call.Checked loaded
  · rw [hexec hchecked]
    unfold saved
    cases hencode : encodeTokens (step.call.applied loaded) with
    | error error => exact ⟨error, rfl⟩
    | ok payload =>
      rw [hrefused ((h.accepted_iff hperm _).mp ⟨hchecked, payload, hencode⟩)]
      exact ⟨.system, rfl⟩
  · exact hfail hchecked

/-- A call that is accepted writes its tokens. -/
theorem Holds.exec_accepted (h : Holds at') (step : Step) (haccepted : step.call.Accepted at'.tokens)
    (hfault : step.fault ≠ .before) : ∃ written payload, encodeTokens written = .ok payload ∧
      written.Perm (step.call.applied at'.tokens) ∧
      (step.call.act step.fault).exec at'.file =
        (if step.fault = .after then .error .system else .ok (), some payload) := by
  obtain ⟨loaded, hload, hperm, -⟩ := h.written
  have hnodup := (hperm.map Prod.fst).nodup_iff.mpr h.nodup
  obtain ⟨hchecked, payload, hencode⟩ := (h.accepted_iff hperm _).mpr haccepted
  refine ⟨_, payload, hencode, perm_applied hperm hnodup step.call, ?_⟩
  rw [(exec_act step.fault hload step.call).1 hchecked]
  unfold saved
  rw [hencode]
  cases hcase : step.fault with
  | none => rfl
  | before => exact (hfault hcase).elim
  | after => rfl

theorem advance_of_error {file : Option ByteArray} {error : StoreError}
    (h : (step.call.act step.fault).exec at'.file = (.error error, file)) :
    at'.advance step = ⟨file, at'.tokens⟩ := by
  rw [Reached.advance, h]

theorem advance_of_ok {file : Option ByteArray}
    (h : (step.call.act step.fault).exec at'.file = (.ok (), file)) :
    at'.advance step = ⟨file, step.call.applied at'.tokens⟩ := by
  rw [Reached.advance, h]

/-- A harmless call leaves a file that holds the tokens. -/
theorem Holds.advance (h : Holds at') (hharmless : step.Harmless at'.tokens) :
    Holds (at'.advance step) := by
  by_cases hrefused : step.call.Accepted at'.tokens → step.fault = .before
  · obtain ⟨error, hexec⟩ := h.exec_refused step hrefused
    rwa [advance_of_error hexec]
  obtain ⟨haccepted, hfault⟩ := Classical.not_imp.mp hrefused
  obtain ⟨written, payload, hencode, hperm, hexec⟩ := h.exec_accepted step haccepted hfault
  obtain ⟨hcrowds, hsame⟩ := hharmless haccepted hfault
  have hnodup := nodup_applied h.nodup step.call
  have hvalid := valid_applied h.nodup h.valid step.call haccepted.1
  have hcount := length_applied_le h step.call haccepted.1 hcrowds
  by_cases hafter : step.fault = .after
  · rw [if_pos hafter] at hexec
    rw [advance_of_error hexec]
    exact holds_of_encodeTokens hencode
      (hperm.trans (perm_of_same (hsame hafter) hnodup h.nodup)) h.nodup h.valid h.count
  · rw [if_neg hafter] at hexec
    rw [advance_of_ok hexec]
    exact holds_of_encodeTokens hencode hperm hnodup hvalid hcount

theorem Holds.exists_load (h : Holds at') : ∃ loaded, loadHarborHfTokens at'.file = .ok loaded ∧
    loaded.keys.Nodup ∧ Same loaded at'.tokens := by
  obtain ⟨loaded, hload, hperm, -⟩ := h.written
  have hnodup := (hperm.map Prod.fst).nodup_iff.mpr h.nodup
  exact ⟨loaded, hload, hnodup, same_of_perm hperm hnodup⟩

/-- A file that holds the tokens is readable. -/
theorem Holds.readable (h : Holds at') : Readable at' where
  loads := h.exists_load
  removes name hsome := by
    obtain ⟨token, htoken⟩ := Option.isSome_iff_exists.mp hsome
    have hname := (h.valid _ (Dict.mem_of_get?_eq_some htoken)).1
    obtain ⟨loaded, -, hperm, hencode⟩ := h.written
    have haccepted : (Call.remove name).Accepted at'.tokens :=
      ⟨⟨hname, hsome⟩, exists_encodeTokens_of_sublist List.filter_sublist
        (exists_encodeTokens_of_perm hperm hencode)⟩
    obtain ⟨written, payload, hencode, hperm, hexec⟩ :=
      h.exec_accepted ⟨.remove name, .none⟩ haccepted nofun
    have hholds : Holds ⟨some payload, at'.tokens.erase name⟩ := by
      refine holds_of_encodeTokens hencode hperm (nodup_applied h.nodup (.remove name)) ?_ ?_
      · exact valid_applied h.nodup h.valid (.remove name) haccepted.1
      · exact length_applied_le h (.remove name) haccepted.1 id
    obtain ⟨later, hload, -, hsame⟩ := hholds.exists_load
    exact ⟨some payload, hexec, later, hload, hsame⟩

theorem Holds.unchanged (h : Holds at') (hharmless : step.Harmless at'.tokens) :
    Unchanged at' step := by
  rintro ⟨error, herror⟩ loaded hload
  have hadvance : at'.advance step =
      ⟨((step.call.act step.fault).exec at'.file).2, at'.tokens⟩ :=
    advance_of_error (Prod.ext herror rfl)
  obtain ⟨before, hbefore, -, hsame⟩ := h.exists_load
  obtain ⟨later, hlater, -, hsame'⟩ := (h.advance hharmless).exists_load
  rw [hadvance] at hsame'
  refine ⟨later, hlater, fun name ↦ ?_⟩
  rw [hsame' name, ← Except.ok.inj (hbefore.symm.trans hload), hsame name]

/-- A call that leaves the store readable is harmless. -/
theorem Holds.harmless (h : Holds at') (hreadable : Readable (at'.advance step)) :
    step.Harmless at'.tokens := by
  intro haccepted hfault
  obtain ⟨written, payload, hencode, hperm, hexec⟩ := h.exec_accepted step haccepted hfault
  obtain ⟨loaded, hload, hnodup, hsame⟩ := hreadable.loads
  have hfile : (at'.advance step).file = some payload := by
    by_cases hafter : step.fault = .after
    · rw [if_pos hafter] at hexec
      rw [advance_of_error hexec]
    · rw [if_neg hafter] at hexec
      rw [advance_of_ok hexec]
  have hnodup' := (hperm.map Prod.fst).nodup_iff.mpr (nodup_applied h.nodup step.call)
  have hread := loadHarborHfTokens_encodeTokens hencode hnodup' fun entry hentry ↦
    valid_applied h.nodup h.valid step.call haccepted.1 entry (hperm.mem_iff.mp hentry)
  rw [← hfile, hload] at hread
  split_ifs at hread with hmany
  obtain rfl := Except.ok.inj hread
  constructor
  · intro hcrowds
    refine hmany ?_
    rw [hperm.length_eq]
    exact length_applied_of_crowds hcrowds
  · intro hafter
    rw [if_pos hafter] at hexec
    rw [advance_of_error hexec] at hsame
    intro name
    rw [← hsame name]
    exact same_of_perm (hperm.symm.trans (perm_sortedTokens written).symm)
      (nodup_applied h.nodup step.call) name

end Holds

theorem reached_append (before : List Step) (step : Step) :
    reached (before ++ [step]) = (reached before).advance step := by
  rw [reached, List.foldl_append]
  rfl

theorem holds_of_harmless {steps : List Step}
    (h : ∀ before step, before ++ [step] <+: steps → step.Harmless (reached before).tokens) :
    Holds (reached steps) := by
  induction steps using List.reverseRecOn with
  | nil => exact holds_start
  | append_singleton before step ih =>
    have hbefore := ih fun first other hearlier ↦
      h first other (hearlier.trans (List.prefix_append _ _))
    exact reached_append before step ▸ hbefore.advance (h before step (List.prefix_refl _))

theorem holds_of_readable {steps : List Step}
    (h : ∀ before, before <+: steps → Readable (reached before)) : Holds (reached steps) := by
  induction steps using List.reverseRecOn with
  | nil => exact holds_start
  | append_singleton before step ih =>
    have hbefore := ih fun first hearlier ↦ h first (hearlier.trans (List.prefix_append _ _))
    have hreadable := h _ (List.prefix_refl _)
    rw [reached_append] at hreadable ⊢
    exact hbefore.advance (hbefore.harmless hreadable)

/-- A run keeps the store readable, and its failing calls leave the tokens alone, if and only if each
of its calls is harmless. -/
theorem readable_iff (steps : List Step) :
    ((∀ before, before <+: steps → Readable (reached before)) ∧
      ∀ before step, before ++ [step] <+: steps → Unchanged (reached before) step) ↔
    ∀ before step, before ++ [step] <+: steps → step.Harmless (reached before).tokens := by
  constructor
  · rintro ⟨hreadable, -⟩ before step hearlier
    have hholds : Holds (reached before) := holds_of_readable fun first hfirst ↦
      hreadable first (hfirst.trans ((List.prefix_append _ _).trans hearlier))
    exact hholds.harmless (reached_append before step ▸ hreadable _ hearlier)
  · intro h
    have hholds (before : List Step) (hbefore : before <+: steps) : Holds (reached before) :=
      holds_of_harmless fun first step hearlier ↦ h first step (hearlier.trans hbefore)
    exact ⟨fun before hbefore ↦ (hholds before hbefore).readable, fun before step hearlier ↦
      (hholds before ((List.prefix_append _ _).trans hearlier)).unchanged (h before step hearlier)⟩

/-! ### One token more -/

local instance neZeroCodes : NeZero 0x110000 := ⟨by decide⟩

/-- A name of one letter. -/
def sampleName (number : ℕ) : Text := [Fin.ofNat 0x110000 (0x4E00 + number)]

/-- Some tokens, all of them alike. -/
def sampleTokens (count : ℕ) : Tokens :=
  (List.range count).map fun number ↦ (sampleName number, text "token")

theorem sampleName_inj {first second : ℕ} (hfirst : first < 257) (hsecond : second < 257)
    (h : sampleName first = sampleName second) : first = second := by
  have hvalue := congrArg Fin.val (List.cons.inj h).1
  simp only [Fin.val_ofNat] at hvalue
  omega

theorem nodup_sampleTokens : (sampleTokens 256).keys.Nodup := by
  rw [Dict.keys, sampleTokens, List.map_map]
  refine List.nodup_range.map_on fun first hfirst second hsecond heq ↦ ?_
  have hfirst := List.mem_range.mp hfirst
  have hsecond := List.mem_range.mp hsecond
  exact sampleName_inj (by omega) (by omega) heq

theorem length_sampleTokens (count : ℕ) : (sampleTokens count).length = count := by
  simp [sampleTokens]

theorem sampleTokens_succ (count : ℕ) :
    sampleTokens (count + 1) = sampleTokens count ++ [(sampleName count, text "token")] := by
  rw [sampleTokens, List.range_succ, List.map_append]
  rfl

theorem get?_sampleTokens : (sampleTokens 256).get? (sampleName 256) = none := by
  rw [Dict.get?_eq_none_iff, Dict.keys, sampleTokens, List.map_map]
  intro hmem
  obtain ⟨number, hnumber, heq⟩ := List.mem_map.mp hmem
  have hlt := List.mem_range.mp hnumber
  have hsame := sampleName_inj (by omega) (by omega) heq
  omega

/-- 256 tokens are saved. -/
def saveMany : Step := ⟨.save (sampleTokens 256) nodup_sampleTokens, .none⟩

/-- One more token is stored. -/
def storeOneMore : Step := ⟨.store (sampleName 256) (text "token") false, .none⟩

theorem validateTokenValue_sample : validateTokenValue (text "token") = .ok () := by
  obtain ⟨octets, hencode⟩ : ∃ octets, encode (text "token") = some octets :=
    ⟨_, if_pos (by decide)⟩
  have hsize : ¬ maxTokenBytes < octets.size := by
    rw [size_of_encode hencode]
    decide
  rw [validateTokenValue, if_neg (by decide), hencode]
  dsimp only
  rw [if_neg hsize, if_neg (by decide)]

theorem valid_sampleName : ∀ number < 257, validateTokenName (sampleName number) = .ok () := by
  decide +kernel

theorem sum_width_le (content : Text) : (content.map width).sum ≤ content.length * 4 := by
  induction content with
  | nil => exact Nat.zero_le _
  | cons code rest ih =>
    have hwidth : width code ≤ 4 := Char.utf8Size_le_four _
    rw [List.map_cons, List.sum_cons, List.length_cons, Nat.add_mul]
    omega

theorem fits_sampleTokens : Fits (write (singleSections hfToken (sampleTokens 257))) :=
  ⟨by decide +kernel, (sum_width_le _).trans (by decide +kernel)⟩

theorem valid_sampleTokens : ∀ entry ∈ sampleTokens 256, ValidToken entry := by
  intro entry hentry
  obtain ⟨number, hnumber, rfl⟩ := List.mem_map.mp hentry
  exact ⟨valid_sampleName number (Nat.lt_succ_of_lt (List.mem_range.mp hnumber)),
    validateTokenValue_sample⟩

theorem accepted_saveMany : saveMany.call.Accepted [] := by
  have hlength : (sampleTokens 256).length ≤ maxTokenCount := by
    rw [length_sampleTokens, maxTokenCount]
  refine ⟨⟨hlength, valid_sampleTokens⟩, ?_⟩
  have hsublist : (sampleTokens 256).Sublist (sampleTokens 257) :=
    (List.range_sublist.mpr (Nat.le_succ 256)).map _
  exact exists_encodeTokens_of_sublist hsublist (exists_encodeTokens_iff.mpr fits_sampleTokens)

theorem set_sampleTokens :
    (sampleTokens 256).set (sampleName 256) (text "token") = sampleTokens 257 :=
  (Dict.set_of_get?_eq_none get?_sampleTokens).trans (sampleTokens_succ 256).symm

theorem accepted_storeOneMore : storeOneMore.call.Accepted (sampleTokens 256) := by
  refine ⟨⟨⟨valid_sampleName 256 (Nat.lt_succ_self 256), validateTokenValue_sample⟩, fun hsome ↦ ?_⟩,
    ?_⟩
  · rw [get?_sampleTokens] at hsome
    cases hsome
  · show ∃ payload, encodeTokens ((sampleTokens 256).set (sampleName 256) (text "token")) =
      .ok payload
    rw [set_sampleTokens]
    exact exists_encodeTokens_iff.mpr fits_sampleTokens

theorem reached_of_accepted {step : Step} (haccepted : step.call.Accepted [])
    (hfault : step.fault = .none) : (reached [step]).tokens = step.call.applied [] := by
  have hbefore : step.fault ≠ .before := by
    rw [hfault]
    exact nofun
  obtain ⟨written, payload, -, -, hexec⟩ := holds_start.exec_accepted step haccepted hbefore
  rw [hfault, if_neg nofun, ← hfault] at hexec
  exact congrArg Reached.tokens (advance_of_ok hexec)

/-- After 257 tokens were stored they cannot be read. -/
theorem storeOneMore_unreadable : ¬ Readable (reached [saveMany, storeOneMore]) := by
  intro hreadable
  have htokens : (reached [saveMany]).tokens = saveMany.call.applied [] :=
    reached_of_accepted accepted_saveMany rfl
  have happlied : saveMany.call.applied [] = sampleTokens 256 := rfl
  rw [happlied] at htokens
  have hholds : Holds (reached ([] ++ [saveMany])) := by
    rw [reached_append]
    exact holds_start.advance fun _ _ ↦ ⟨id, nofun⟩
  have hlast : reached [saveMany, storeOneMore] = (reached [saveMany]).advance storeOneMore :=
    reached_append [saveMany] storeOneMore
  rw [hlast] at hreadable
  refine (hholds.harmless hreadable ?_ nofun).1 ?_
  · rw [List.nil_append, htokens]
    exact accepted_storeOneMore
  · rw [List.nil_append, htokens]
    have hlength : (sampleTokens 256).length = maxTokenCount := by
      rw [length_sampleTokens, maxTokenCount]
    exact ⟨get?_sampleTokens, hlength.ge⟩

end HarborHF.TokenStore
