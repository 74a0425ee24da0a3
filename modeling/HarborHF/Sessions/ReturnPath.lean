import HarborHF.Encodings.RootedUrl

/-!
# The path a login returns to

The text a login is begun with is refused unless it begins with a slash and has neither a backslash
nor a control character. It is then resolved on the callback's origin, and if the URL has this
origin its path, query and fragment are stored and sent to the browser, which resolves them on its
own page. A path that begins with two slashes is read as an authority there: the stored path stays
on the origin, and is kept when it is checked again, unless dot segments or an authority in front
of it leave it so (`keeps_iff`).
-/

set_option autoImplicit false

namespace HarborHF.ReturnPath

open CodePoints RootedUrl

/-! ### The check -/

def isControl (code : CodePoint) : Bool := decide (code.val ≤ 0x1F ∨ code.val = 0x7F)

def backslash : CodePoint := point '\\'

variable {ω : Type} [Authority ω]

/-- The URL of a text that begins with a slash. -/
def resolveRooted (origin : ω) : Text → Option (Url ω)
  | [] => none
  | code :: rest => if code = slash then resolve origin rest else none

/-- Without a slash at its beginning a text is refused, as it is with a backslash or a control. -/
def isRefused (returnTo : Text) : Bool :=
  decide (returnTo.head? ≠ some slash) || decide (backslash ∈ returnTo) || returnTo.any isControl

variable [DecidableEq ω]

/-- `callback` is the origin of the callback URL. -/
def safeReturnPath (returnTo : Text) (callback : ω) : Text :=
  if isRefused returnTo then [slash]
  else match resolveRooted callback returnTo with
    | none => [slash]
    | some resolved => if resolved.origin ≠ callback then [slash] else resolved.relative

/-! ### What the service relies on -/

/-- Every page of the callback's origin leads to a URL of it, and the path passes its own check
unchanged. -/
structure Keeps (returnTo : Text) (callback : ω) : Prop where
  stays : ∀ page : Url ω, page.origin = callback →
    ∃ url, resolveRooted page.origin (safeReturnPath returnTo callback) = some url ∧
      url.origin = callback
  unchanged : safeReturnPath (safeReturnPath returnTo callback) callback =
    safeReturnPath returnTo callback

/-- The text is not refused and names a URL of the origin whose path begins with two slashes. -/
def Doubled (returnTo : Text) (callback : ω) : Prop :=
  isRefused returnTo = false ∧ ∃ url : Url ω, resolveRooted callback returnTo = some url ∧
    url.origin = callback ∧ ∃ second more, url.path = [] :: second :: more

section

omit [DecidableEq ω]

theorem resolveRooted_slash (origin : ω) (rest : Text) :
    resolveRooted origin (slash :: rest) = resolve origin rest := by
  rw [resolveRooted, if_pos rfl]

theorem isRefused_eq_false {returnTo : Text} (h : isRefused returnTo = false) :
    returnTo.head? = some slash ∧
      ∀ code ∈ returnTo, code ≠ backslash ∧ isControl code = false := by
  obtain ⟨hstart, hcontrol⟩ := Bool.or_eq_false_iff.mp h
  obtain ⟨hslash, hbackslash⟩ := Bool.or_eq_false_iff.mp hstart
  refine ⟨not_not.mp (of_decide_eq_false hslash), fun code hcode ↦ ⟨?_, ?_⟩⟩
  · rintro rfl
    exact of_decide_eq_false hbackslash hcode
  · exact Bool.eq_false_iff.mpr (List.any_eq_false.mp hcontrol code hcode)

end

section

variable {returnTo : Text} {callback : ω}

/-- What is stored is a slash, or the path, query and fragment of a URL on the origin. -/
theorem safeReturnPath_eq (returnTo : Text) (callback : ω) :
    safeReturnPath returnTo callback = [slash] ∨ ∃ url : Url ω, isRefused returnTo = false ∧
      resolveRooted callback returnTo = some url ∧ url.origin = callback ∧
        safeReturnPath returnTo callback = url.relative := by
  unfold safeReturnPath
  split_ifs with hrefused
  · exact .inl rfl
  · cases hresolved : resolveRooted callback returnTo with
    | none => exact .inl rfl
    | some url =>
      by_cases horigin : url.origin = callback
      · exact .inr ⟨url, Bool.eq_false_iff.mpr hrefused, rfl, horigin,
          if_neg (not_not.mpr horigin)⟩
      · exact .inl (if_pos horigin)

theorem safeReturnPath_of_resolved {url : Url ω} (hrefused : isRefused returnTo = false)
    (hresolved : resolveRooted callback returnTo = some url) (horigin : url.origin = callback) :
    safeReturnPath returnTo callback = url.relative := by
  rw [safeReturnPath, hrefused, if_neg Bool.false_ne_true, hresolved]
  exact if_neg (not_not.mpr horigin)

omit [DecidableEq ω] in
/-- A URL that a text without controls and backslashes is resolved to is written without them. -/
theorem isRefused_relative {origin : ω} {url : Url ω} (hrefused : isRefused returnTo = false)
    (hresolved : resolveRooted origin returnTo = some url) :
    url.Plain ∧ isRefused url.relative = false := by
  obtain ⟨hhead, hallowed⟩ := isRefused_eq_false hrefused
  match returnTo, hhead with
  | _ :: rest, rfl =>
    rw [resolveRooted_slash] at hresolved
    obtain ⟨other, value, rfl, hvalue⟩ := exists_readTail hresolved
    have hplain := readTail_plain other value
    have hover : (readTail other value).Over fun code ↦ code ≠ backslash ∧ isControl code = false :=
      readTail_over (by decide) (by decide) other fun code hcode ↦
        hallowed code (List.mem_cons_of_mem _ (hvalue code hcode))
    have hcodes := hover.mem_relative (by decide)
    refine ⟨hplain, ?_⟩
    obtain ⟨segment, more, hpath⟩ := List.exists_cons_of_ne_nil hplain.nonempty
    refine Bool.or_eq_false_iff.mpr ⟨Bool.or_eq_false_iff.mpr ⟨?_, ?_⟩, ?_⟩
    · rw [Url.relative_eq hpath]
      exact decide_eq_false (not_not.mpr rfl)
    · exact decide_eq_false fun hmem ↦ (hcodes _ hmem).1 rfl
    · exact List.any_eq_false.mpr fun code hcode ↦ Bool.eq_false_iff.mp (hcodes code hcode).2

theorem keeps_slash (h : safeReturnPath returnTo callback = [slash]) : Keeps returnTo callback where
  stays page hpage := by
    rw [h, hpage]
    exact ⟨readTail callback [], rfl, rfl⟩
  unchanged := by
    have hallowed : isRefused [slash] = false := by decide
    rw [h]
    exact safeReturnPath_of_resolved hallowed rfl rfl

/-- The stored path stays on the origin and is kept by its own check exactly if the text does not
name a path of this origin that begins with two slashes. -/
theorem keeps_iff : Keeps returnTo callback ↔ ¬Doubled returnTo callback := by
  constructor
  · rintro ⟨hstays, hunchanged⟩ ⟨hrefused, url, hresolved, horigin, second, more, hpath⟩
    have hstored := safeReturnPath_of_resolved hrefused hresolved horigin
    have hplain := (isRefused_relative hrefused hresolved).1
    have hrelative := Url.relative_eq hpath
    rw [hstored] at hunchanged
    rcases safeReturnPath_eq url.relative callback with
      hslash | ⟨again, -, hagain, -, heq⟩
    · rw [hunchanged, hrelative] at hslash
      cases hslash
    · have hshorter : again.relative.length < url.relative.length := by
        rw [hrelative, List.nil_append, resolveRooted_slash] at hagain
        exact hplain.length_resolve hpath hagain
      rw [← heq, hunchanged] at hshorter
      exact lt_irrefl _ hshorter
  · intro hdoubled
    rcases safeReturnPath_eq returnTo callback with
      hslash | ⟨url, hrefused, hresolved, horigin, hstored⟩
    · exact keeps_slash hslash
    obtain ⟨hplain, hallowed⟩ := isRefused_relative hrefused hresolved
    obtain ⟨segment, more, hpath⟩ := List.exists_cons_of_ne_nil hplain.nonempty
    have hrooted : segment = [] → more = [] := by
      rintro rfl
      cases more with
      | nil => rfl
      | cons second more =>
        exact absurd ⟨hrefused, url, hresolved, horigin, second, more, hpath⟩ hdoubled
    obtain ⟨again, hagain, hsame, hrelative⟩ := hplain.resolve_relative hpath hrooted callback
    have hread : resolveRooted callback url.relative = some again := by
      rw [Url.relative_eq hpath, resolveRooted_slash, hagain]
    refine ⟨fun page hpage ↦ ?_, ?_⟩
    · rw [hpage, hstored]
      exact ⟨again, hread, hsame⟩
    · rw [hstored, safeReturnPath_of_resolved hallowed hread hsame, hrelative]

end

/-! ### A path that leaves the origin -/

/-- A host as it is written. -/
local instance writtenAuthority : Authority Text where
  readAuthority host := if host = [] then none else some host

/-- A dot segment in front of two slashes is removed, and the path leads to another host. -/
theorem dotSegment_leaves : safeReturnPath (text "/.//evil.example") (text "service.example") =
      text "//evil.example" ∧
    ¬∀ (returnTo : Text) (callback : Text), Keeps returnTo callback := by
  refine ⟨by decide +kernel, fun hkeeps ↦ ?_⟩
  have hleaves : (resolveRooted (text "service.example")
      (safeReturnPath (text "/.//evil.example") (text "service.example"))).map Url.origin =
        some (text "evil.example") := by decide +kernel
  obtain ⟨url, hurl, horigin⟩ := (hkeeps (text "/.//evil.example") (text "service.example")).stays
    ⟨text "service.example", [], none, none⟩ rfl
  rw [hurl, Option.map_some, horigin] at hleaves
  exact absurd hleaves (by decide)

end HarborHF.ReturnPath
