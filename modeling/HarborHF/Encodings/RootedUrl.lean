import HarborHF.Encodings.CodePoints

/-!
# URLs that begin with a slash

How a URL of a special scheme is read from a text that begins with a slash, and written again. The
slash is followed by a path, or by another slash and an authority. Reading the path removes its dot
segments; a code point outside the set of a part is kept and any other is percent-encoded, so what
has been encoded is read again as it stands. A path that begins with two slashes is not: its second
segment is read as an authority.
-/

set_option autoImplicit false

namespace RootedUrl

open CodePoints

/-! ### Percent-encoding -/

def hexDigit (value : ℕ) : CodePoint :=
  if value < 10 then Fin.ofNat 0x110000 (48 + value) else Fin.ofNat 0x110000 (55 + value)

/-- The octets of a code point; a surrogate is replaced. -/
def octetsOf (code : CodePoint) : List UInt8 :=
  String.utf8EncodeChar (if isScalar code then Char.ofNat code.val else Char.ofNat 0xFFFD)

def percent : CodePoint := point '%'

/-- A code point as it is written in a part whose encode set it is checked against. -/
def encodePoint (encoded : CodePoint → Bool) (code : CodePoint) : Text :=
  if encoded code then
    (octetsOf code).flatMap fun octet ↦
      [percent, hexDigit (octet.toNat / 16), hexDigit (octet.toNat % 16)]
  else [code]

def isC0 (code : CodePoint) : Bool := decide (code.val ≤ 0x1F ∨ 0x7E < code.val)

def oneOf (letters : List Char) (code : CodePoint) : Bool := letters.any fun letter ↦
  decide (code = point letter)

def inFragmentSet (code : CodePoint) : Bool := isC0 code || oneOf [' ', '"', '<', '>', '`'] code

def inQuerySet (code : CodePoint) : Bool := isC0 code || oneOf [' ', '"', '#', '<', '>'] code

def inSpecialQuerySet (code : CodePoint) : Bool := inQuerySet code || oneOf ['\''] code

def inPathSet (code : CodePoint) : Bool := inQuerySet code || oneOf ['?', '^', '`', '{', '}'] code

/-! ### Reading -/

/-- The host and the port that an authority names. -/
class Authority (ω : Type) where
  readAuthority : Text → Option ω

structure Url (ω : Type) where
  origin : ω
  path : List Text
  query : Option Text
  fragment : Option Text

def slash : CodePoint := point '/'

def isSlash (code : CodePoint) : Bool := oneOf ['/', '\\'] code

/-- A dot, or its percent-encoding. -/
def lowered (segment : Text) : Text :=
  segment.map fun code ↦ if code = point 'E' then point 'e' else code

def isSingleDot (segment : Text) : Bool :=
  decide (lowered segment ∈ [text ".", text "%2e"])

def isDoubleDot (segment : Text) : Bool :=
  decide (lowered segment ∈ [text "..", text ".%2e", text "%2e.", text "%2e%2e"])

/-- The path with one more segment; `more` says that a slash follows. -/
def endSegment (path : List Text) (segment : Text) (more : Bool) : List Text :=
  if isDoubleDot segment then if more then path.dropLast else path.dropLast ++ [[]]
  else if isSingleDot segment then if more then path else path ++ [[]]
  else path ++ [segment]

/-- The path state: the segments up to a question mark or a number sign, and what is left. -/
def readPath (path : List Text) (segment : Text) : Text → List Text × Text
  | [] => (endSegment path segment false, [])
  | code :: rest =>
    if isSlash code then readPath (endSegment path segment true) [] rest
    else if oneOf ['?', '#'] code then (endSegment path segment false, code :: rest)
    else readPath path (segment ++ encodePoint inPathSet code) rest

def isFragmentSign (code : CodePoint) : Bool := decide (code = point '#')

def readFragment : Text → Option Text
  | [] => none
  | _ :: rest => some (rest.flatMap (encodePoint inFragmentSet))

/-- The query and the fragment behind a path. -/
def readEnd : Text → Option Text × Option Text
  | [] => (none, none)
  | code :: rest =>
    if code = point '?' then
      (some ((rest.takeWhile fun code ↦ !isFragmentSign code).flatMap
          (encodePoint inSpecialQuerySet)),
        readFragment (rest.dropWhile fun code ↦ !isFragmentSign code))
    else (none, readFragment (code :: rest))

/-- The path, the query and the fragment of what follows a host. -/
def readTail {ω : Type} (origin : ω) (rest : Text) : Url ω :=
  let path := readPath [] [] rest
  let end' := readEnd path.2
  ⟨origin, path.1, end'.1, end'.2⟩

def endsAuthority (code : CodePoint) : Bool := isSlash code || oneOf ['?', '#'] code

def isC0OrSpace (code : CodePoint) : Bool := decide (code.val ≤ 0x20)

def isTabOrNewline (code : CodePoint) : Bool := oneOf ['\t', '\n', '\r'] code

section Resolving

variable {ω : Type} [Authority ω]

/-- The URL of a slash and what follows it, as it is read on a page with this origin. -/
def resolve (origin : ω) (input : Text) : Option (Url ω) :=
  let rest := (input.rdropWhile isC0OrSpace).filter fun code ↦ !isTabOrNewline code
  if rest.head?.any isSlash then
    let host := rest.dropWhile isSlash
    let after := host.dropWhile fun code ↦ !endsAuthority code
    (Authority.readAuthority (host.takeWhile fun code ↦ !endsAuthority code)).map fun other ↦
      readTail other (if after.head?.any isSlash then after.tail else after)
  else some (readTail origin rest)

end Resolving

/-! ### Writing -/

variable {ω : Type} {path : List Text} {code : CodePoint}

def written (path : List Text) : Text := path.flatMap fun segment ↦ slash :: segment

def Url.pathname (url : Url ω) : Text := written url.path

/-- A part behind its sign, if it is not empty. -/
def signed (sign : CodePoint) : Option Text → Text
  | none => []
  | some [] => []
  | some (code :: rest) => sign :: code :: rest

def Url.search (url : Url ω) : Text := signed (point '?') url.query

def Url.hash (url : Url ω) : Text := signed (point '#') url.fragment

def Url.relative (url : Url ω) : Text := url.pathname ++ url.search ++ url.hash

/-! ### What is encoded stays -/

section Encoding

variable {encoded : CodePoint → Bool} {code other : CodePoint}

theorem encodePoint_eq_self (h : encoded code = false) : encodePoint encoded code = [code] := by
  rw [encodePoint, h, if_neg Bool.false_ne_true]

theorem flatMap_encodePoint {value : Text} (h : ∀ code ∈ value, encoded code = false) :
    value.flatMap (encodePoint encoded) = value := by
  induction value with
  | nil => rfl
  | cons code rest ih =>
    obtain ⟨hcode, hrest⟩ := List.forall_mem_cons.mp h
    rw [List.flatMap_cons, encodePoint_eq_self hcode, ih hrest]
    rfl

/-- An encoded code point is one that is kept, or percent signs and digits. -/
theorem mem_encodePoint (h : other ∈ encodePoint encoded code) :
    encoded other = false ∧ other = code ∨ other = percent ∨
      ∃ value < 16, other = hexDigit value := by
  unfold encodePoint at h
  split_ifs at h with hencoded
  · obtain ⟨octet, -, hmem⟩ := List.mem_flatMap.mp h
    have hlt := octet.toNat_lt
    simp only [List.mem_cons, List.not_mem_nil, or_false] at hmem
    rcases hmem with rfl | rfl | rfl
    · exact .inr (.inl rfl)
    · exact .inr (.inr ⟨_, by omega, rfl⟩)
    · exact .inr (.inr ⟨_, by omega, rfl⟩)
  · rw [List.mem_singleton.mp h]
    exact .inl ⟨Bool.eq_false_iff.mpr hencoded, rfl⟩

theorem encoded_of_mem (hpercent : encoded percent = false)
    (hdigit : ∀ value < 16, encoded (hexDigit value) = false)
    (h : other ∈ encodePoint encoded code) : encoded other = false := by
  rcases mem_encodePoint h with ⟨hother, -⟩ | rfl | ⟨value, hvalue, rfl⟩
  · exact hother
  · exact hpercent
  · exact hdigit value hvalue

end Encoding

theorem inPathSet_of_mem {code other : CodePoint} (h : other ∈ encodePoint inPathSet code) :
    inPathSet other = false := encoded_of_mem (by decide) (by decide) h

theorem inSpecialQuerySet_of_mem {value : Text} {other : CodePoint}
    (h : other ∈ value.flatMap (encodePoint inSpecialQuerySet)) :
    inSpecialQuerySet other = false := by
  obtain ⟨code, -, hmem⟩ := List.mem_flatMap.mp h
  exact encoded_of_mem (by decide) (by decide) hmem

theorem inFragmentSet_of_mem {value : Text} {other : CodePoint}
    (h : other ∈ value.flatMap (encodePoint inFragmentSet)) : inFragmentSet other = false := by
  obtain ⟨code, -, hmem⟩ := List.mem_flatMap.mp h
  exact encoded_of_mem (by decide) (by decide) hmem

theorem isSlash_of_mem {code other : CodePoint} (hcode : isSlash code = false)
    (h : other ∈ encodePoint inPathSet code) : isSlash other = false := by
  rcases mem_encodePoint h with ⟨-, rfl⟩ | rfl | ⟨value, hvalue, rfl⟩
  · exact hcode
  · decide
  · have hdigit : ∀ value < 16, isSlash (hexDigit value) = false := by decide
    exact hdigit value hvalue

/-! ### Reading the path -/

/-- A segment as it is kept in a path. -/
structure Segment (segment : Text) : Prop where
  kept : ∀ code ∈ segment, inPathSet code = false ∧ isSlash code = false
  notSingle : isSingleDot segment = false
  notDouble : isDoubleDot segment = false

theorem segment_nil : Segment [] := ⟨nofun, by decide, by decide⟩

/-- What is left behind a path: nothing, or a query or a fragment. -/
def EndsPath (rest : Text) : Prop := ∀ code ∈ rest.head?, oneOf ['?', '#'] code = true

theorem endSegment_segments {segment : Text} (hpath : ∀ segment ∈ path, Segment segment)
    (hsegment : ∀ code ∈ segment, inPathSet code = false ∧ isSlash code = false) (more : Bool) :
    (∀ other ∈ endSegment path segment more, Segment other) ∧
      (more = false → endSegment path segment more ≠ []) := by
  have hdrop : ∀ segment ∈ path.dropLast, Segment segment :=
    fun segment hmem ↦ hpath segment ((List.dropLast_sublist path).subset hmem)
  have happend {path : List Text} (hpath : ∀ segment ∈ path, Segment segment) {segment : Text}
      (hsegment : Segment segment) : ∀ other ∈ path ++ [segment], Segment other :=
    fun other hother ↦ (List.mem_append.mp hother).elim (hpath other)
      fun hmem ↦ List.mem_singleton.mp hmem ▸ hsegment
  have hkept (hdouble : ¬isDoubleDot segment = true) (hsingle : ¬isSingleDot segment = true) :
      Segment segment :=
    ⟨hsegment, Bool.eq_false_iff.mpr hsingle, Bool.eq_false_iff.mpr hdouble⟩
  unfold endSegment
  cases more with
  | true =>
    simp only [if_true]
    split_ifs with hdouble hsingle
    · exact ⟨hdrop, nofun⟩
    · exact ⟨hpath, nofun⟩
    · exact ⟨happend hpath (hkept hdouble hsingle), nofun⟩
  | false =>
    simp only [Bool.false_eq_true, if_false]
    split_ifs with hdouble hsingle
    · exact ⟨happend hdrop segment_nil, fun _ ↦ List.append_ne_nil_of_right_ne_nil _ nofun⟩
    · exact ⟨happend hpath segment_nil, fun _ ↦ List.append_ne_nil_of_right_ne_nil _ nofun⟩
    · exact ⟨happend hpath (hkept hdouble hsingle),
        fun _ ↦ List.append_ne_nil_of_right_ne_nil _ nofun⟩

/-- The segments of a path are kept as they stand, and there is one at least. -/
theorem readPath_segments {segment : Text} (rest : Text) (hpath : ∀ segment ∈ path, Segment segment)
    (hsegment : ∀ code ∈ segment, inPathSet code = false ∧ isSlash code = false) :
    (∀ other ∈ (readPath path segment rest).1, Segment other) ∧
      (readPath path segment rest).1 ≠ [] ∧ EndsPath (readPath path segment rest).2 := by
  induction rest generalizing path segment with
  | nil =>
    obtain ⟨hall, hne⟩ := endSegment_segments hpath hsegment false
    exact ⟨hall, hne rfl, nofun⟩
  | cons code rest ih =>
    rw [readPath]
    split_ifs with hslash hend
    · exact ih (endSegment_segments hpath hsegment true).1 nofun
    · obtain ⟨hall, hne⟩ := endSegment_segments hpath hsegment false
      refine ⟨hall, hne rfl, ?_⟩
      rintro other ⟨⟩
      exact hend
    · refine ih hpath fun other hother ↦ ?_
      rcases List.mem_append.mp hother with hmem | hmem
      · exact hsegment other hmem
      · exact ⟨inPathSet_of_mem hmem, isSlash_of_mem (Bool.eq_false_iff.mpr hslash) hmem⟩

theorem oneOf_of_inPathSet (h : inPathSet code = false) : oneOf ['?', '#'] code = false := by
  refine Bool.eq_false_iff.mpr fun hend ↦ ?_
  have hsigns : code = point '?' ∨ code = point '#' := by simpa [oneOf] using hend
  rcases hsigns with rfl | rfl
  · exact absurd h (by decide)
  · exact absurd h (by decide)

theorem readPath_append {segment value : Text}
    (hvalue : ∀ code ∈ value, inPathSet code = false ∧ isSlash code = false) (rest : Text) :
    readPath path segment (value ++ rest) = readPath path (segment ++ value) rest := by
  induction value generalizing segment with
  | nil => rw [List.nil_append, List.append_nil]
  | cons code value ih =>
    obtain ⟨⟨hkept, hslash⟩, hmore⟩ := List.forall_mem_cons.mp hvalue
    rw [List.cons_append, readPath, if_neg (by rw [hslash]; exact Bool.false_ne_true),
      if_neg (by rw [oneOf_of_inPathSet hkept]; exact Bool.false_ne_true),
      encodePoint_eq_self hkept, ih hmore, List.append_assoc]
    rfl

theorem isSlash_of_end (h : oneOf ['?', '#'] code = true) : isSlash code = false := by
  have hsigns : code = point '?' ∨ code = point '#' := by simpa [oneOf] using h
  rcases hsigns with rfl | rfl <;> decide

theorem readPath_endsPath {segment rest : Text} (h : EndsPath rest) :
    readPath path segment rest = (endSegment path segment false, rest) := by
  cases rest with
  | nil => rfl
  | cons code rest =>
    have hend : oneOf ['?', '#'] code = true := h code rfl
    rw [readPath, if_neg (by rw [isSlash_of_end hend]; exact Bool.false_ne_true), if_pos hend]

theorem endSegment_segment {segment : Text} (h : Segment segment)
    (more : Bool) : endSegment path segment more = path ++ [segment] := by
  rw [endSegment, h.notDouble, h.notSingle, if_neg Bool.false_ne_true, if_neg Bool.false_ne_true]

/-- What is read of a path that is written is the path. -/
theorem readPath_written {path more : List Text} {segment rest : Text} (hsegment : Segment segment)
    (hmore : ∀ other ∈ more, Segment other) (hrest : EndsPath rest) :
    readPath path [] (segment ++ written more ++ rest) = (path ++ segment :: more, rest) := by
  induction more generalizing path segment with
  | nil =>
    rw [List.append_assoc, readPath_append hsegment.kept]
    exact (readPath_endsPath hrest).trans (by rw [List.nil_append, endSegment_segment hsegment])
  | cons next more ih =>
    obtain ⟨hnext, hmore⟩ := List.forall_mem_cons.mp hmore
    have hwritten : segment ++ written (next :: more) ++ rest =
        segment ++ slash :: (next ++ written more ++ rest) := by
      simp only [written, List.flatMap_cons, List.cons_append, List.append_assoc]
    have hslash : isSlash slash = true := by decide
    rw [hwritten, readPath_append hsegment.kept, readPath, if_pos hslash, List.nil_append,
      endSegment_segment hsegment, ih hnext hmore, List.append_assoc]
    rfl

/-- Reading a text of which nothing is encoded makes a path no longer. -/
theorem length_readPath {segment value rest : Text}
    (hvalue : ∀ code ∈ value, inPathSet code = false) (hrest : EndsPath rest) :
    (readPath path segment (value ++ rest)).2 = rest ∧
      (written (readPath path segment (value ++ rest)).1).length ≤
        (written path).length + 1 + segment.length + value.length := by
  have hlength (path : List Text) (segment : Text) (more : Bool) :
      (written (endSegment path segment more)).length ≤
        (written path).length + 1 + segment.length := by
    have happend (path : List Text) (segment : Text) :
        (written (path ++ [segment])).length = (written path).length + 1 + segment.length := by
      simp only [written, List.flatMap_append, List.length_append, List.flatMap_singleton,
        List.length_cons]
      omega
    have hdrop : (written path.dropLast).length ≤ (written path).length := by
      rcases path.eq_nil_or_concat' with rfl | ⟨init, last, rfl⟩
      · exact le_rfl
      · rw [List.dropLast_concat, happend]
        omega
    have hnil := happend path.dropLast []
    have hnil' := happend path []
    have hsegment := happend path segment
    rw [List.length_nil] at hnil hnil'
    unfold endSegment
    split_ifs <;> omega
  induction value generalizing path segment with
  | nil =>
    rw [List.nil_append, readPath_endsPath hrest]
    exact ⟨rfl, hlength path segment false⟩
  | cons code value ih =>
    obtain ⟨hcode, hmore⟩ := List.forall_mem_cons.mp hvalue
    rw [List.cons_append, readPath, encodePoint_eq_self hcode, List.length_cons]
    split_ifs with hslash hend
    · obtain ⟨hsame, hbound⟩ := @ih (endSegment path segment true) [] hmore
      have hstep := hlength path segment true
      rw [List.length_nil] at hbound
      exact ⟨hsame, by omega⟩
    · exact absurd hend (by rw [oneOf_of_inPathSet hcode]; exact Bool.false_ne_true)
    · obtain ⟨hsame, hbound⟩ := @ih path (segment ++ [code]) hmore
      rw [List.length_append, List.length_singleton] at hbound
      exact ⟨hsame, by omega⟩

/-! ### Reading the query and the fragment -/

def Kept (encoded : CodePoint → Bool) (part : Option Text) : Prop :=
  ∀ value ∈ part, ∀ code ∈ value, encoded code = false

theorem readFragment_kept (rest : Text) : Kept inFragmentSet (readFragment rest) := by
  cases rest with
  | nil => nofun
  | cons sign rest =>
    rintro value ⟨⟩ code hcode
    exact inFragmentSet_of_mem hcode

theorem readEnd_kept (rest : Text) :
    Kept inSpecialQuerySet (readEnd rest).1 ∧ Kept inFragmentSet (readEnd rest).2 := by
  cases rest with
  | nil => exact ⟨nofun, nofun⟩
  | cons code rest =>
    rw [readEnd]
    split_ifs with hquery
    · refine ⟨?_, readFragment_kept _⟩
      rintro value ⟨⟩ other hother
      exact inSpecialQuerySet_of_mem hother
    · exact ⟨nofun, readFragment_kept (code :: rest)⟩

theorem readFragment_signed {fragment : Option Text} (h : Kept inFragmentSet fragment) :
    signed (point '#') (readFragment (signed (point '#') fragment)) =
      signed (point '#') fragment := by
  match fragment, h with
  | none, _ => rfl
  | some [], _ => rfl
  | some (code :: rest), h =>
    rw [signed, readFragment, flatMap_encodePoint (h _ rfl)]
    rfl

theorem signed_head {sign : CodePoint} {part : Option Text} :
    ∀ code ∈ (signed sign part).head?, code = sign := by
  match part with
  | none => nofun
  | some [] => nofun
  | some (_ :: _) => rintro other ⟨⟩; rfl

/-- A query and a fragment that are written are read again, an empty one as none. -/
theorem readEnd_signed {query fragment : Option Text} (hquery : Kept inSpecialQuerySet query)
    (hfragment : Kept inFragmentSet fragment) :
    signed (point '?') (readEnd (signed (point '?') query ++ signed (point '#') fragment)).1 =
        signed (point '?') query ∧
      signed (point '#') (readEnd (signed (point '?') query ++ signed (point '#') fragment)).2 =
        signed (point '#') fragment := by
  have hnone : signed (point '?') (readEnd (signed (point '#') fragment)).1 = [] ∧
      signed (point '#') (readEnd (signed (point '#') fragment)).2 =
        signed (point '#') fragment := by
    have hread := readFragment_signed hfragment
    cases hsigned : signed (point '#') fragment with
    | nil => exact ⟨rfl, rfl⟩
    | cons code rest =>
      have hsign : code = point '#' := signed_head code (by rw [hsigned]; rfl)
      have hno : ¬code = point '?' := hsign ▸ by decide
      rw [readEnd, if_neg hno]
      exact ⟨rfl, by rw [← hsigned]; exact hread⟩
  match query, hquery with
  | none, _ => exact hnone
  | some [], _ => exact hnone
  | some (code :: rest), hquery =>
    have hplain := hquery _ rfl
    have hpass : ∀ other ∈ code :: rest, (!isFragmentSign other) = true := by
      intro other hother
      have hother : isFragmentSign other = false := decide_eq_false fun hsign ↦ by
        have hkept := hplain other hother
        rw [hsign] at hkept
        exact absurd hkept (by decide)
      rw [hother]
      rfl
    have hstop : (signed (point '#') fragment).takeWhile (fun code ↦ !isFragmentSign code) = [] ∧
        (signed (point '#') fragment).dropWhile (fun code ↦ !isFragmentSign code) =
          signed (point '#') fragment := by
      cases hsigned : signed (point '#') fragment with
      | nil => exact ⟨rfl, rfl⟩
      | cons sign value =>
        have hsign : sign = point '#' := signed_head sign (by rw [hsigned]; rfl)
        have hno : ¬(!isFragmentSign sign) = true := hsign ▸ by decide
        exact ⟨List.takeWhile_cons_of_neg hno, List.dropWhile_cons_of_neg hno⟩
    have hread : readEnd (signed (point '?') (some (code :: rest)) ++
        signed (point '#') fragment) =
          (some (code :: rest), readFragment (signed (point '#') fragment)) := by
      rw [signed, List.cons_append, readEnd, if_pos rfl, List.takeWhile_append_of_pos hpass,
        List.dropWhile_append_of_pos hpass, hstop.1, hstop.2, List.append_nil,
        flatMap_encodePoint hplain]
    rw [hread]
    exact ⟨rfl, readFragment_signed hfragment⟩

/-! ### What has been read is read again -/

/-- A URL whose parts stand as they are written. -/
structure Url.Plain (url : Url ω) : Prop where
  segments : ∀ segment ∈ url.path, Segment segment
  nonempty : url.path ≠ []
  query : Kept inSpecialQuerySet url.query
  fragment : Kept inFragmentSet url.fragment

theorem readTail_plain (origin : ω) (rest : Text) : (readTail origin rest).Plain := by
  obtain ⟨hsegments, hne, -⟩ := @readPath_segments [] [] rest nofun nofun
  have hend := readEnd_kept (readPath [] [] rest).2
  exact ⟨hsegments, hne, hend.1, hend.2⟩

/-- Of the code points of a URL each is one of its parts' or a sign between them. -/
structure Url.Over (holds : CodePoint → Prop) (url : Url ω) : Prop where
  path : ∀ segment ∈ url.path, ∀ code ∈ segment, holds code
  query : ∀ value ∈ url.query, ∀ code ∈ value, holds code
  fragment : ∀ value ∈ url.fragment, ∀ code ∈ value, holds code

theorem mem_signed {sign code : CodePoint} {part : Option Text} (h : code ∈ signed sign part) :
    code = sign ∨ ∃ value ∈ part, code ∈ value := by
  match part, h with
  | some (first :: rest), h => exact (List.mem_cons.mp h).imp_right fun hmem ↦ ⟨_, rfl, hmem⟩

theorem mem_written (h : code ∈ written path) :
    code = slash ∨ ∃ segment ∈ path, code ∈ segment := by
  obtain ⟨segment, hsegment, hmem⟩ := List.mem_flatMap.mp h
  exact (List.mem_cons.mp hmem).imp_right fun hcode ↦ ⟨segment, hsegment, hcode⟩

theorem Url.Over.mem_relative {holds : CodePoint → Prop} {url : Url ω} (h : url.Over holds)
    (hsigns : holds slash ∧ holds (point '?') ∧ holds (point '#')) :
    ∀ code ∈ url.relative, holds code := by
  intro code hmem
  rcases List.mem_append.mp hmem with hmem | hmem
  · rcases List.mem_append.mp hmem with hmem | hmem
    · rcases mem_written hmem with rfl | ⟨segment, hsegment, hcode⟩
      · exact hsigns.1
      · exact h.path segment hsegment code hcode
    · rcases mem_signed hmem with rfl | ⟨value, hvalue, hcode⟩
      · exact hsigns.2.1
      · exact h.query value hvalue code hcode
  · rcases mem_signed hmem with rfl | ⟨value, hvalue, hcode⟩
    · exact hsigns.2.2
    · exact h.fragment value hvalue code hcode

section Over

variable {holds : CodePoint → Prop}

theorem mem_endSegment {path : List Text} {segment other : Text} {more : Bool}
    (h : other ∈ endSegment path segment more) : other ∈ path ∨ other = segment ∨ other = [] := by
  unfold endSegment at h
  split_ifs at h
  · exact .inl ((List.dropLast_sublist path).subset h)
  · exact (List.mem_append.mp h).imp (fun hmem ↦ (List.dropLast_sublist path).subset hmem)
      fun hmem ↦ .inr (List.mem_singleton.mp hmem)
  · exact .inl h
  · exact (List.mem_append.mp h).imp_right fun hmem ↦ .inr (List.mem_singleton.mp hmem)
  · exact (List.mem_append.mp h).imp_right fun hmem ↦ .inl (List.mem_singleton.mp hmem)

theorem endSegment_over {path : List Text} {segment : Text} (more : Bool)
    (hpath : ∀ other ∈ path, ∀ code ∈ other, holds code) (hsegment : ∀ code ∈ segment, holds code) :
    ∀ other ∈ endSegment path segment more, ∀ code ∈ other, holds code := by
  intro other hother
  rcases mem_endSegment hother with hmem | rfl | rfl
  · exact hpath other hmem
  · exact hsegment
  · nofun

section Encoded

variable (hpercent : holds percent) (hdigit : ∀ value < 16, holds (hexDigit value))

include hpercent hdigit

theorem encodePoint_over {encoded : CodePoint → Bool} {code : CodePoint} (hcode : holds code) :
    ∀ other ∈ encodePoint encoded code, holds other := by
  intro other hother
  rcases mem_encodePoint hother with ⟨-, rfl⟩ | rfl | ⟨digit, hlt, rfl⟩
  · exact hcode
  · exact hpercent
  · exact hdigit digit hlt

theorem flatMap_over {encoded : CodePoint → Bool} {value : Text}
    (hvalue : ∀ code ∈ value, holds code) :
    ∀ other ∈ value.flatMap (encodePoint encoded), holds other := by
  intro other hother
  obtain ⟨code, hcode, hmem⟩ := List.mem_flatMap.mp hother
  exact encodePoint_over hpercent hdigit (hvalue code hcode) other hmem

theorem readPath_over {path : List Text} {segment : Text} (rest : Text)
    (hpath : ∀ other ∈ path, ∀ code ∈ other, holds code)
    (hsegment : ∀ code ∈ segment, holds code) (hrest : ∀ code ∈ rest, holds code) :
    (∀ other ∈ (readPath path segment rest).1, ∀ code ∈ other, holds code) ∧
      ∀ code ∈ (readPath path segment rest).2, holds code := by
  induction rest generalizing path segment with
  | nil => exact ⟨endSegment_over false hpath hsegment, nofun⟩
  | cons code rest ih =>
    obtain ⟨hcode, hmore⟩ := List.forall_mem_cons.mp hrest
    rw [readPath]
    split_ifs
    · exact ih (endSegment_over true hpath hsegment) nofun hmore
    · exact ⟨endSegment_over false hpath hsegment, hrest⟩
    · refine ih hpath (fun other hother ↦ ?_) hmore
      rcases List.mem_append.mp hother with hmem | hmem
      · exact hsegment other hmem
      · exact encodePoint_over hpercent hdigit hcode other hmem

theorem readFragment_over {rest : Text} (hrest : ∀ code ∈ rest, holds code) :
    ∀ value ∈ readFragment rest, ∀ code ∈ value, holds code := by
  cases rest with
  | nil => nofun
  | cons sign rest =>
    rintro value ⟨⟩
    exact flatMap_over hpercent hdigit (List.forall_mem_cons.mp hrest).2

theorem readEnd_over {rest : Text} (hrest : ∀ code ∈ rest, holds code) :
    (∀ value ∈ (readEnd rest).1, ∀ code ∈ value, holds code) ∧
      ∀ value ∈ (readEnd rest).2, ∀ code ∈ value, holds code := by
  cases rest with
  | nil => exact ⟨nofun, nofun⟩
  | cons sign rest =>
    have hmore := (List.forall_mem_cons.mp hrest).2
    rw [readEnd]
    split_ifs
    · refine ⟨?_, readFragment_over hpercent hdigit fun code hcode ↦
        hmore code ((List.dropWhile_suffix _).subset hcode)⟩
      rintro value ⟨⟩
      exact flatMap_over hpercent hdigit fun code hcode ↦
        hmore code ((List.takeWhile_prefix _).subset hcode)
    · exact ⟨nofun, readFragment_over hpercent hdigit hrest⟩

theorem readTail_over (origin : ω) {rest : Text} (hrest : ∀ code ∈ rest, holds code) :
    (readTail origin rest).Over holds := by
  obtain ⟨hsegments, hleft⟩ :=
    @readPath_over holds hpercent hdigit [] [] rest nofun nofun hrest
  have hend := readEnd_over hpercent hdigit hleft
  exact ⟨hsegments, hend.1, hend.2⟩

end Encoded

end Over

/-! ### Resolving what has been written -/

theorem isC0OrSpace_of_kept {letters : List Char}
    (h : (isC0 code || oneOf (' ' :: letters) code) = false) : isC0OrSpace code = false := by
  obtain ⟨hcontrol, hletters⟩ := Bool.or_eq_false_iff.mp h
  refine decide_eq_false fun hlow ↦ ?_
  have hvisible : ¬code.val ≤ 0x1F := fun hle ↦ of_decide_eq_false hcontrol (.inl hle)
  have hspace : code ≠ point ' ' := by
    rintro rfl
    simp [oneOf] at hletters
  exact hspace (Fin.ext (by change code.val = 0x20; omega))

theorem isTabOrNewline_of_visible (h : isC0OrSpace code = false) : isTabOrNewline code = false := by
  refine Bool.eq_false_iff.mpr fun htab ↦ ?_
  have hsigns : code = point '\t' ∨ code = point '\n' ∨ code = point '\r' := by
    simpa [isTabOrNewline, oneOf] using htab
  rcases hsigns with rfl | rfl | rfl <;> exact absurd h (by decide)

namespace Url

variable {url : Url ω}

def ends (url : Url ω) : Text := url.search ++ url.hash

theorem relative_eq {segment : Text} {more : List Text} (h : url.path = segment :: more) :
    url.relative = slash :: (segment ++ written more ++ url.ends) := by
  simp only [relative, pathname, ends, h, written, List.flatMap_cons, List.cons_append,
    List.append_assoc]

theorem endsPath_ends (url : Url ω) : EndsPath url.ends := by
  intro code hcode
  have hsigns : code = point '?' ∨ code = point '#' := by
    rw [ends, search, hash] at hcode
    cases hquery : signed (point '?') url.query with
    | nil =>
      rw [hquery, List.nil_append] at hcode
      exact .inr (signed_head code hcode)
    | cons sign rest =>
      rw [hquery] at hcode
      exact .inl (signed_head code (by rw [hquery]; exact hcode))
  rcases hsigns with rfl | rfl <;> decide

theorem dropWhile_ends {stops : CodePoint → Bool}
    (hstops : ∀ code ∈ url.ends.head?, stops code = false) (value : Text) :
    (value ++ url.ends).dropWhile stops = value.dropWhile stops ++ url.ends := by
  have hends : url.ends.dropWhile stops = url.ends := by
    cases hends : url.ends with
    | nil => rfl
    | cons code rest =>
      have hcode := hstops code (by rw [hends]; rfl)
      exact List.dropWhile_cons_of_neg (by rw [hcode]; exact Bool.false_ne_true)
  rw [List.dropWhile_append, hends]
  split_ifs with hempty
  · rw [List.isEmpty_iff.mp hempty, List.nil_append]
  · rfl

namespace Plain

variable (h : url.Plain)

include h

theorem visible : url.Over fun code ↦ isC0OrSpace code = false :=
  ⟨fun segment hsegment code hcode ↦
      isC0OrSpace_of_kept
        (Bool.or_eq_false_iff.mp ((h.segments segment hsegment).kept code hcode).1).1,
    fun value hvalue code hcode ↦
      isC0OrSpace_of_kept (Bool.or_eq_false_iff.mp (h.query value hvalue code hcode)).1,
    fun value hvalue code hcode ↦ isC0OrSpace_of_kept (h.fragment value hvalue code hcode)⟩

theorem cleaned {input : Text} (hinput : url.relative = slash :: input) :
    (input.rdropWhile isC0OrSpace).filter (fun code ↦ !isTabOrNewline code) = input := by
  have hvisible : ∀ code ∈ input, isC0OrSpace code = false := fun code hcode ↦
    h.visible.mem_relative (by decide) code (hinput ▸ List.mem_cons_of_mem slash hcode)
  have hlast : input.rdropWhile isC0OrSpace = input :=
    List.rdropWhile_eq_self_iff.mpr fun hne hspace ↦
      absurd hspace (by rw [hvisible _ (List.getLast_mem hne)]; exact Bool.false_ne_true)
  rw [hlast, List.filter_eq_self]
  intro code hcode
  rw [isTabOrNewline_of_visible (hvisible code hcode)]
  rfl

theorem readTail_relative {segment : Text} {more : List Text} (hpath : url.path = segment :: more)
    (origin : ω) : (readTail origin (segment ++ written more ++ url.ends)).path = url.path ∧
      (readTail origin (segment ++ written more ++ url.ends)).relative = url.relative := by
  have hsegments := List.forall_mem_cons.mp (hpath ▸ h.segments)
  have hread : readPath [] [] (segment ++ written more ++ url.ends) = (url.path, url.ends) := by
    rw [readPath_written hsegments.1 hsegments.2 url.endsPath_ends, List.nil_append, hpath]
  have hend := readEnd_signed h.query h.fragment
  have htail : readTail origin (segment ++ written more ++ url.ends) =
      ⟨origin, url.path, (readEnd url.ends).1, (readEnd url.ends).2⟩ := by
    rw [readTail, hread]
  refine ⟨by rw [htail], ?_⟩
  rw [htail, relative, relative, search, hash]
  change _ ++ signed (point '?') (readEnd url.ends).1 ++ signed (point '#') (readEnd url.ends).2 = _
  rw [ends, search, hash, hend.1, hend.2]
  rfl

/-- Reading what is left of a path and the end of the URL makes it no longer. -/
theorem length_readTail {value : Text} (hvalue : ∀ code ∈ value, inPathSet code = false)
    (origin : ω) : (readTail origin (value ++ url.ends)).relative.length ≤
      1 + value.length + url.ends.length := by
  obtain ⟨hrest, hlength⟩ := @length_readPath [] [] value url.ends hvalue url.endsPath_ends
  have hend := readEnd_signed h.query h.fragment
  have hsearch : (readTail origin (value ++ url.ends)).search = url.search :=
    (congrArg (fun rest ↦ signed (point '?') (readEnd rest).1) hrest).trans hend.1
  have hhash : (readTail origin (value ++ url.ends)).hash = url.hash :=
    (congrArg (fun rest ↦ signed (point '#') (readEnd rest).2) hrest).trans hend.2
  have hpath : (readTail origin (value ++ url.ends)).pathname.length ≤ 1 + value.length :=
    hlength.trans (by rw [written, List.flatMap_nil, List.length_nil])
  rw [relative, hsearch, hhash, List.append_assoc, List.length_append]
  exact Nat.add_le_add_right hpath _

variable [Authority ω]

/-- A path that does not begin with two slashes is resolved to the URL that was written. -/
theorem resolve_relative {segment : Text} {more : List Text} (hpath : url.path = segment :: more)
    (hrooted : segment = [] → more = []) (origin : ω) :
    ∃ again, resolve origin (segment ++ written more ++ url.ends) = some again ∧
      again.origin = origin ∧ again.relative = url.relative := by
  have hhead : ¬((segment ++ written more ++ url.ends).head?.any isSlash) = true := by
    cases segment with
    | nil =>
      rw [hrooted rfl]
      cases hends : url.ends with
      | nil => exact Bool.false_ne_true
      | cons code rest =>
        have hend : oneOf ['?', '#'] code = true := url.endsPath_ends code (by rw [hends]; rfl)
        exact (by rw [isSlash_of_end hend]; exact Bool.false_ne_true : ¬isSlash code = true)
    | cons code rest =>
      have hkept := (h.segments (code :: rest) (by rw [hpath]; exact List.mem_cons_self)).kept code
        List.mem_cons_self
      exact (by rw [hkept.2]; exact Bool.false_ne_true : ¬isSlash code = true)
  rw [resolve, h.cleaned (url.relative_eq hpath), if_neg hhead]
  exact ⟨_, rfl, rfl, (h.readTail_relative hpath origin).2⟩

/-- A path that begins with two slashes loses its second segment to the authority: whatever it is
resolved to is shorter. -/
theorem length_resolve {second : Text} {more : List Text}
    (hpath : url.path = [] :: second :: more) {origin : ω} {again : Url ω}
    (hagain : resolve origin (written (second :: more) ++ url.ends) = some again) :
    again.relative.length < url.relative.length := by
  have hrelative := url.relative_eq hpath
  rw [List.nil_append] at hrelative
  have hkept : ∀ code ∈ written (second :: more), inPathSet code = false := by
    intro code hcode
    rcases mem_written hcode with rfl | ⟨segment, hsegment, hmem⟩
    · decide
    · exact ((h.segments segment (hpath ▸ List.mem_cons_of_mem _ hsegment)).kept code hmem).1
  have hslash : isSlash slash = true := by decide
  have hhead : ((written (second :: more) ++ url.ends).head?.any isSlash) = true := hslash
  have hend : ∀ code ∈ url.ends.head?, isSlash code = false ∧ endsAuthority code = true :=
    fun code hcode ↦ by
      have hends := url.endsPath_ends code hcode
      exact ⟨isSlash_of_end hends, by rw [endsAuthority, hends, Bool.or_true]⟩
  rw [resolve, h.cleaned hrelative, if_pos hhead] at hagain
  dsimp only at hagain
  rw [dropWhile_ends (fun code hcode ↦ (hend code hcode).1),
    dropWhile_ends (fun code hcode ↦ by rw [(hend code hcode).2]; rfl)] at hagain
  obtain ⟨other, -, rfl⟩ := Option.map_eq_some_iff.mp hagain
  -- what is left of the path behind the authority
  obtain ⟨left, hleft⟩ : ∃ left, left = ((written (second :: more)).dropWhile isSlash).dropWhile
    fun code ↦ !endsAuthority code := ⟨_, rfl⟩
  have hsuffix : left <:+ (written (second :: more)).tail := by
    rw [hleft]
    refine (List.dropWhile_suffix _).trans ?_
    rw [written, List.flatMap_cons, List.cons_append, List.dropWhile_cons_of_pos hslash]
    exact List.dropWhile_suffix _
  have hbound {value : Text} (hvalue : value <:+ left) :
      (readTail other (value ++ url.ends)).relative.length < url.relative.length := by
    have hall := hvalue.trans hsuffix
    have hvisible : ∀ code ∈ value, inPathSet code = false :=
      fun code hcode ↦ hkept code (List.mem_of_mem_tail (hall.subset hcode))
    have hlength := h.length_readTail hvisible other
    have hle := hall.length_le
    have hpositive : 0 < (written (second :: more)).length := Nat.succ_pos _
    rw [List.length_tail] at hle
    rw [hrelative, List.length_cons, List.length_append]
    omega
  rw [← hleft]
  cases hleft : left with
  | nil =>
    have hnone : ¬url.ends.head?.any isSlash = true := by
      cases hends : url.ends with
      | nil => exact Bool.false_ne_true
      | cons code rest =>
        have hcode := (hend code (by rw [hends]; rfl)).1
        exact (by rw [hcode]; exact Bool.false_ne_true : ¬isSlash code = true)
    rw [List.nil_append, if_neg hnone]
    exact @hbound [] List.nil_suffix
  | cons code rest =>
    split_ifs
    · exact hbound (hleft ▸ List.suffix_cons code rest)
    · exact hbound (hleft ▸ List.suffix_rfl)

end Plain

end Url

/-- A URL that has been resolved is one that has been read from a piece of the input. -/
theorem exists_readTail [Authority ω] {origin : ω} {input : Text} {url : Url ω}
    (h : resolve origin input = some url) :
    ∃ other value, url = readTail other value ∧ ∀ code ∈ value, code ∈ input := by
  let rest := (input.rdropWhile isC0OrSpace).filter fun code ↦ !isTabOrNewline code
  have hrest : ∀ code ∈ rest, code ∈ input := fun code hcode ↦
    (List.rdropWhile_prefix isC0OrSpace input).subset (List.mem_of_mem_filter hcode)
  have hafter : ∀ code ∈ (rest.dropWhile isSlash).dropWhile fun code ↦ !endsAuthority code,
      code ∈ input := fun code hcode ↦
    hrest code ((List.dropWhile_suffix _).subset ((List.dropWhile_suffix _).subset hcode))
  unfold resolve at h
  dsimp only at h
  split_ifs at h
  · obtain ⟨other, -, rfl⟩ := Option.map_eq_some_iff.mp h
    exact ⟨other, _, rfl, fun code hcode ↦ hafter code (List.mem_of_mem_tail hcode)⟩
  · obtain ⟨other, -, rfl⟩ := Option.map_eq_some_iff.mp h
    exact ⟨other, _, rfl, hafter⟩
  · cases h
    exact ⟨origin, _, rfl, hrest⟩

end RootedUrl
