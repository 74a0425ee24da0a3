import HarborHF.Json.Text

/-!
# Canonical JSON

`canonicalJson` is the text that records, prepared trials and locks are digested by. Members are sorted
with `localeCompare`, a comparison of the host's language that reports some different keys as equal;
the sort keeps these in the order they came in, and keys that are array indices come first whatever
the sort says.

So the text depends on the order of members exactly where an object has two different keys, neither
an index, that compare as equal (`canonicalJson_canonical_iff`). Different values have different texts
in any case, and the text reads back as the value.
-/

set_option autoImplicit false

namespace HarborHF.Contracts

open Json Numeric

structure CanonicalJsonError where
  message : String
  deriving DecidableEq

/-- `typeof` for the values that JSON has no text for. -/
def typeName : Unsupported → String
  | .undefined => "undefined"
  | .bigint => "bigint"
  | .symbol => "symbol"
  | .function => "function"

section

variable {ν α : Type} (localeCompare : Text → Text → Ordering)

/-- The order in which entries are sorted. -/
def KeyLE (entry entry' : Text × α) : Prop := (localeCompare entry.1 entry'.1).isLE = true

instance : DecidableRel (KeyLE localeCompare : Text × α → Text × α → Prop) :=
  fun _ _ ↦ inferInstanceAs (Decidable (_ = _))

/-- The members of an object from its entries, sorted. -/
def arrange (entries : List (Text × α)) : List (Text × α) :=
  fromEntries (entries.insertionSort (KeyLE localeCompare))

variable [Numeric ν]

mutual

/-- `normalize`. The members of an object are normalized in sorted order, so the first error is the
one of the first sorted key. -/
def normalize : Value ν → Except CanonicalJsonError (Value ν)
  | .null => .ok .null
  | .boolean value => .ok (.boolean value)
  | .string text => .ok (.string text)
  | .number value =>
    if finite value then .ok (.number (unsigned value))
    else .error ⟨"canonical JSON cannot contain a non-finite number"⟩
  | .array items => do
    let items ← normalizeItems items
    return .array items
  | .object members => do
    let entries ← ((normalizeMembers members).insertionSort (KeyLE localeCompare)).mapM fun entry ↦ do
      let value ← entry.2
      return (entry.1, value)
    return .object (fromEntries entries)
  | .other type => .error ⟨"canonical JSON does not support " ++ typeName type⟩

def normalizeItems : List (Value ν) → Except CanonicalJsonError (List (Value ν))
  | [] => .ok []
  | item :: rest => do
    let item ← normalize item
    let rest ← normalizeItems rest
    return item :: rest

/-- The members that are not undefined, with what normalizing their values gives. -/
def normalizeMembers : List (Text × Value ν) → List (Text × Except CanonicalJsonError (Value ν))
  | [] => []
  | (_, .other .undefined) :: rest => normalizeMembers rest
  | (key, value) :: rest => (key, normalize value) :: normalizeMembers rest

end

/-- The canonical text of a value, with a line break. -/
def canonicalJson (value : Value ν) : Except CanonicalJsonError Text := do
  let value ← normalize localeCompare value
  return stringify value ++ [10]

/-! ### Normal values -/

mutual

/-- A JSON value with sorted members, and zero for negative zero. -/
def normal : Value ν → Value ν
  | .null => .null
  | .boolean value => .boolean value
  | .string text => .string text
  | .number value => .number (unsigned value)
  | .array items => .array (normalItems items)
  | .object members => .object (arrange localeCompare (normalMembers members))
  | .other type => .other type

def normalItems : List (Value ν) → List (Value ν)
  | [] => []
  | item :: rest => normal item :: normalItems rest

def normalMembers : List (Text × Value ν) → List (Text × Value ν)
  | [] => []
  | (key, value) :: rest => (key, normal value) :: normalMembers rest

end

/-- A member with its value in normal form. -/
def normalMember (member : Text × Value ν) : Text × Value ν :=
  (member.1, normal localeCompare member.2)

theorem normalItems_eq (items : List (Value ν)) :
    normalItems localeCompare items = items.map (normal localeCompare) := by
  induction items with
  | nil => rfl
  | cons item rest ih => rw [normalItems, ih, List.map_cons]

theorem normalMembers_eq (members : List (Text × Value ν)) :
    normalMembers localeCompare members = members.map (normalMember localeCompare) := by
  induction members with
  | nil => rfl
  | cons member rest ih => rw [normalMembers, ih, List.map_cons, normalMember]

variable {localeCompare}

theorem normal_array (items : List (Value ν)) :
    normal localeCompare (.array items) = .array (items.map (normal localeCompare)) := by
  rw [normal, normalItems_eq]

theorem normal_object (members : List (Text × Value ν)) : normal localeCompare (.object members) =
      .object (arrange localeCompare (members.map (normalMember localeCompare))) := by
  rw [normal, normalMembers_eq]

theorem normalizeItems_eq {items : List (Value ν)}
    (h : ∀ item ∈ items, normalize localeCompare item = .ok (normal localeCompare item)) :
    normalizeItems localeCompare items = .ok (items.map (normal localeCompare)) := by
  induction items with
  | nil => rfl
  | cons item rest ih =>
    obtain ⟨hitem, hrest⟩ := List.forall_mem_cons.mp h
    rw [normalizeItems, hitem, ih hrest]
    rfl

theorem normalizeMembers_eq {good : ν → Prop} {members : List (Text × Value ν)}
    (hformed : ∀ member ∈ members, Formed good member.2) (h : ∀ member ∈ members,
      normalize localeCompare member.2 = .ok (normal localeCompare member.2)) :
    normalizeMembers localeCompare members =
      (members.map (normalMember localeCompare)).map fun member ↦ (member.1, .ok member.2) := by
  induction members with
  | nil => rfl
  | cons member rest ih =>
    obtain ⟨key, value⟩ := member
    obtain ⟨hvalue, hrest⟩ := List.forall_mem_cons.mp h
    obtain ⟨hfirst, hothers⟩ := List.forall_mem_cons.mp hformed
    have hcons : normalizeMembers localeCompare ((key, value) :: rest) =
        (key, normalize localeCompare value) :: normalizeMembers localeCompare rest := by
      cases hfirst <;> rfl
    rw [hcons, hvalue, ih hothers hrest]
    rfl

omit [Numeric ν] in
theorem mapM_ok (entries : List (Text × Value ν)) :
    ((entries.map fun entry ↦ (entry.1, (.ok entry.2 : Except CanonicalJsonError (Value ν)))).mapM
      fun entry ↦ do
        let value ← entry.2
        return (entry.1, value)) = .ok entries := by
  induction entries with
  | nil => rfl
  | cons entry rest ih =>
    rw [List.map_cons, List.mapM_cons, ih]
    rfl

/-- A JSON value is normalized without an error. -/
theorem normalize_eq {value : Value ν} (h : Formed (fun number ↦ finite number = true) value) :
    normalize localeCompare value = .ok (normal localeCompare value) := by
  induction h with
  | null => rfl
  | boolean value => rfl
  | number hfinite => rw [normalize, if_pos hfinite, normal]
  | string text => rfl
  | array hitems ih =>
    rw [normalize, normalizeItems_eq ih, normal_array]
    rfl
  | @object members hkeys horder hmembers ih =>
    have hsort := List.map_insertionSort (KeyLE localeCompare) (KeyLE localeCompare)
      (fun member : Text × Value ν ↦ (member.1, (.ok member.2 : Except CanonicalJsonError (Value ν))))
      (members.map (normalMember localeCompare)) fun _ _ _ _ ↦ Iff.rfl
    rw [normalize, normalizeMembers_eq hmembers ih, normal_object, ← hsort, mapM_ok]
    rfl

/-! ### The order of members -/

section Order

variable {entries entries' : List (Text × α)}

instance [Std.TransCmp localeCompare] :
    IsTrans (Text × α) (KeyLE localeCompare) := ⟨fun _ _ _ ↦ Std.TransCmp.isLE_trans⟩

instance [Std.TransCmp localeCompare] :
    Std.Total (KeyLE localeCompare : Text × α → Text × α → Prop) := by
  refine ⟨fun entry entry' ↦ ?_⟩
  have hswap : localeCompare entry'.1 entry.1 = (localeCompare entry.1 entry'.1).swap :=
    Std.OrientedCmp.eq_swap
  unfold KeyLE
  rw [hswap]
  cases localeCompare entry.1 entry'.1 <;> simp

theorem filter_insertionSort [Std.TransCmp localeCompare] {mark : Text × α → Bool}
    (h : (entries.filter mark).Pairwise (KeyLE localeCompare)) :
    (entries.insertionSort (KeyLE localeCompare)).filter mark = entries.filter mark := by
  have hsublist := (List.sublist_insertionSort h List.filter_sublist).filter mark
  simp only [List.filter_filter, Bool.and_self] at hsublist
  refine (hsublist.eq_of_length ?_).symm
  exact ((List.perm_insertionSort _ _).filter mark).length_eq.symm

theorem arrange_perm (localeCompare : Text → Text → Ordering) (entries : List (Text × α)) :
    (arrange localeCompare entries).Perm entries :=
  (fromEntries_perm _).trans (List.perm_insertionSort _ _)

/-- The keys of properties that are no array indices. -/
theorem filter_fromEntries (entries : List (Text × α)) :
    (fromEntries entries).filter (fun entry ↦ !isIndexed entry) =
      entries.filter fun entry ↦ !isIndexed entry := by
  unfold fromEntries
  rw [List.filter_append, List.filter_filter]
  have hnone : ((entries.filter isIndexed).insertionSort IndexLE).filter
      (fun entry ↦ !isIndexed entry) = [] := by
    rw [List.filter_eq_nil_iff]
    intro entry hentry
    have hindexed := (List.mem_filter.mp ((List.mem_insertionSort _).mp hentry)).2
    simp [hindexed]
  rw [hnone]
  simp

/-- Arranging the members again changes nothing. -/
theorem arrange_arrange [Std.TransCmp localeCompare] (hkeys : (entries.map Prod.fst).Nodup) :
    arrange localeCompare (arrange localeCompare entries) = arrange localeCompare entries := by
  have hothers : ((arrange localeCompare entries).insertionSort (KeyLE localeCompare)).filter
      (fun entry ↦ !isIndexed entry) =
        (entries.insertionSort (KeyLE localeCompare)).filter fun entry ↦ !isIndexed entry := by
    have hsorted := (List.pairwise_insertionSort (KeyLE localeCompare) entries).sublist
      (List.filter_sublist (p := fun entry ↦ !isIndexed entry))
    rw [filter_insertionSort]
    · exact filter_fromEntries _
    · rw [arrange, filter_fromEntries]
      exact hsorted
  refine fromEntries_congr ?_ ?_ hothers
  · refine (((List.perm_insertionSort _ _).trans (arrange_perm _ _)).map Prod.fst).nodup_iff.mpr hkeys
  · exact ((List.perm_insertionSort _ _).trans (arrange_perm _ _)).trans
      (List.perm_insertionSort _ _).symm

/-- Different keys, no array indices, compare as different. -/
def KeysApart (localeCompare : Text → Text → Ordering) (keys : List Text) : Prop :=
  ∀ key ∈ keys, ∀ key' ∈ keys, arrayIndex key = none → arrayIndex key' = none →
    localeCompare key key' = .eq → key = key'

/-- When no two keys tie, the entries are arranged alike in whatever order they come. -/
theorem arrange_congr [Std.TransCmp localeCompare] (hkeys : (entries.map Prod.fst).Nodup)
    (hperm : entries.Perm entries') (hapart : KeysApart localeCompare (entries.map Prod.fst)) :
    arrange localeCompare entries = arrange localeCompare entries' := by
  have hsorted := ((List.perm_insertionSort (KeyLE localeCompare) entries).trans hperm).trans
    (List.perm_insertionSort (KeyLE localeCompare) entries').symm
  refine fromEntries_congr ?_ hsorted ?_
  · exact ((List.perm_insertionSort _ _).map Prod.fst).nodup_iff.mpr hkeys
  · refine (hsorted.filter _).eq_of_pairwise ?_
      ((List.pairwise_insertionSort _ _).sublist List.filter_sublist)
      ((List.pairwise_insertionSort _ _).sublist List.filter_sublist)
    intro entry entry' hentry hentry' hle hge
    obtain ⟨hmem, hindexed⟩ := List.mem_filter.mp hentry
    obtain ⟨hmem', hindexed'⟩ := List.mem_filter.mp hentry'
    rw [List.mem_insertionSort] at hmem hmem'
    have hmem' := hperm.mem_iff.mpr hmem'
    have htie : localeCompare entry.1 entry'.1 = .eq := by
      have hswap : localeCompare entry'.1 entry.1 = (localeCompare entry.1 entry'.1).swap :=
        Std.OrientedCmp.eq_swap
      unfold KeyLE at hle hge
      rw [hswap] at hge
      cases hvalue : localeCompare entry.1 entry'.1 <;> simp [hvalue] at hle hge ⊢
    refine List.inj_on_of_nodup_map hkeys hmem hmem' (hapart _ (List.mem_map_of_mem hmem) _
      (List.mem_map_of_mem hmem') ?_ ?_ htie)
    · simpa [isIndexed] using hindexed
    · simpa [isIndexed] using hindexed'

/-- The same members with those under no array index in the opposite order. -/
def turned (entries : List (Text × α)) : List (Text × α) :=
  entries.filter isIndexed ++ (entries.filter fun entry ↦ !isIndexed entry).reverse

theorem turned_perm (entries : List (Text × α)) : (turned entries).Perm entries :=
  ((List.reverse_perm _).append_left _).trans (List.filter_append_perm _ _)

theorem turned_map {β : Type} (entries : List (Text × α)) (change : α → β) :
    turned (entries.map fun entry ↦ (entry.1, change entry.2)) =
      (turned entries).map fun entry ↦ (entry.1, change entry.2) := by
  unfold turned
  rw [List.map_append, List.map_reverse, List.filter_map, List.filter_map]
  rfl

theorem pairwise_turned (h : (entries.map Prod.fst).Pairwise Precedes) :
    ((turned entries).map Prod.fst).Pairwise Precedes := by
  refine List.pairwise_map.mpr (List.pairwise_append.mpr ⟨?_, ?_, ?_⟩)
  · exact (List.pairwise_map.mp h).sublist List.filter_sublist
  · refine List.Pairwise.imp_of_mem ?_ (List.pairwise_of_forall fun _ _ ↦ trivial)
    exact fun _ hsecond _ ↦
      precedes_of_not_indexed (List.mem_filter.mp (List.mem_reverse.mp hsecond)).2 _
  · exact fun first _ second hsecond ↦
      precedes_of_not_indexed (List.mem_filter.mp (List.mem_reverse.mp hsecond)).2 first.1

/-- A list of different elements that is its own reverse has at most one. -/
theorem eq_of_mem_of_reverse {β : Type} {list : List β} (hnodup : list.Nodup)
    (h : list.reverse = list) {first second : β} (hfirst : first ∈ list) (hsecond : second ∈ list) :
    first = second := by
  cases list with
  | nil => cases hfirst
  | cons head tail =>
    have hlast : (head :: tail).getLast (List.cons_ne_nil _ _) = head := by
      rw [← List.head_reverse (by simp)]
      simp only [h, List.head_cons]
    have hempty : tail = [] := by
      by_contra hne
      rw [List.getLast_cons hne] at hlast
      exact (List.nodup_cons.mp hnodup).1 (hlast ▸ List.getLast_mem hne)
    subst hempty
    rw [List.mem_singleton.mp hfirst, List.mem_singleton.mp hsecond]

/-- Keys that tie are arranged in the order they come in. -/
theorem apart_of_arrange_turned [Std.TransCmp localeCompare] (hkeys : (entries.map Prod.fst).Nodup)
    (h : arrange localeCompare (turned entries) = arrange localeCompare entries) :
    KeysApart localeCompare (entries.map Prod.fst) := by
  intro key hkey key' hkey' hindex hindex' htie
  obtain ⟨entry, hentry, rfl⟩ := List.mem_map.mp hkey
  obtain ⟨entry', hentry', rfl⟩ := List.mem_map.mp hkey'
  -- the entries whose keys tie with the first one
  let ties : Text × α → Bool := fun other ↦
    !isIndexed other && decide (localeCompare entry.1 other.1 = .eq)
  have hties : ∀ list : List (Text × α),
      (list.filter ties).Pairwise (KeyLE localeCompare) := by
    intro list
    refine List.Pairwise.imp_of_mem ?_ (List.pairwise_of_forall fun _ _ ↦ trivial)
    intro first second hfirst hsecond _
    have hfirst := (Bool.and_eq_true_iff.mp (List.mem_filter.mp hfirst).2).2
    have hsecond := (Bool.and_eq_true_iff.mp (List.mem_filter.mp hsecond).2).2
    have hback := Std.OrientedCmp.eq_symm (of_decide_eq_true hfirst)
    unfold KeyLE
    rw [Std.TransCmp.congr_left hback, of_decide_eq_true hsecond]
    rfl
  have hothers : ∀ list : List (Text × α),
      (arrange localeCompare list).filter ties = list.filter ties := by
    intro list
    have hfilter : ∀ other : List (Text × α), other.filter ties =
        (other.filter fun element ↦ !isIndexed element).filter ties := by
      intro other
      rw [List.filter_filter]
      refine List.filter_congr fun element _ ↦ ?_
      by_cases helement : isIndexed element = true <;> simp [ties, helement]
    rw [hfilter, arrange, filter_fromEntries, ← hfilter, filter_insertionSort (hties list)]
  have hreverse : (entries.filter ties).reverse = entries.filter ties := by
    have hturned : (turned entries).filter ties = (entries.filter ties).reverse := by
      have hnone : (entries.filter isIndexed).filter ties = [] := by
        rw [List.filter_eq_nil_iff]
        intro element helement
        simp [ties, (List.mem_filter.mp helement).2]
      have hsame : (entries.filter fun element ↦ !isIndexed element).filter ties =
          entries.filter ties := by
        rw [List.filter_filter]
        refine List.filter_congr fun element _ ↦ ?_
        by_cases helement : isIndexed element = true <;> simp [ties, helement]
      rw [turned, List.filter_append, hnone, List.filter_reverse, hsame, List.nil_append]
    rw [← hturned, ← hothers, h, hothers]
  have hnodup : (entries.filter ties).Nodup := hkeys.of_map.filter _
  refine congrArg Prod.fst (eq_of_mem_of_reverse hnodup hreverse ?_ ?_)
  · refine List.mem_filter.mpr ⟨hentry, ?_⟩
    have hself : localeCompare entry.1 entry.1 = .eq := Std.ReflCmp.compare_self
    simp [ties, isIndexed, hindex, hself]
  · refine List.mem_filter.mpr ⟨hentry', ?_⟩
    simp [ties, isIndexed, hindex', htie]

end Order

/-! ### Normal forms -/

/-- The JSON values of the language: numbers are finite. -/
abbrev IsJson (value : Value ν) : Prop := Formed (fun number ↦ finite number = true) value

variable {first second : Value ν}

theorem map_fst_normalMember (members : List (Text × Value ν)) :
    (members.map (normalMember localeCompare)).map Prod.fst = members.map Prod.fst := by
  rw [List.map_map]
  rfl

/-- The normal form has numbers that print, and members in the order of properties. -/
theorem formed_normal (localeCompare : Text → Text → Ordering) (h : IsJson first) :
    Formed Printable (normal localeCompare first) := by
  induction h with
  | null => exact .null
  | boolean value => exact .boolean value
  | number hfinite => exact .number ⟨finite_unsigned hfinite, unsigned_unsigned _⟩
  | string text => exact .string text
  | array hitems ih =>
    rw [normal_array]
    refine .array fun item hitem ↦ ?_
    obtain ⟨other, hother, rfl⟩ := List.mem_map.mp hitem
    exact ih other hother
  | @object members hkeys horder hmembers ih =>
    rw [normal_object]
    have hsorted : (((members.map (normalMember localeCompare)).insertionSort
        (KeyLE localeCompare)).map Prod.fst).Nodup :=
      ((List.perm_insertionSort _ _).map Prod.fst).nodup_iff.mpr (by rwa [map_fst_normalMember])
    refine .object (((fromEntries_perm _).map Prod.fst).nodup_iff.mpr hsorted)
      (pairwise_fromEntries hsorted) fun member hmember ↦ ?_
    obtain ⟨other, hother, rfl⟩ := List.mem_map.mp ((arrange_perm _ _).mem_iff.mp hmember)
    exact ih other hother

theorem isJson_of_printable (h : Formed Printable first) : IsJson first := by
  induction h with
  | null => exact .null
  | boolean value => exact .boolean value
  | number h => exact .number h.1
  | string text => exact .string text
  | array h ih => exact .array ih
  | object hkeys horder h ih => exact .object hkeys horder ih

/-- The normal form is the same value up to the order of members. -/
theorem same_normal (localeCompare : Text → Text → Ordering) (h : IsJson first) :
    Same first (normal localeCompare first) := by
  induction h with
  | null => exact .null
  | boolean value => exact .boolean value
  | number hfinite => exact .number (unsigned_unsigned _).symm
  | string text => exact .string text
  | @array items hitems ih =>
    rw [normal_array]
    refine .array (List.length_map _).symm fun index item item' hitem hitem' ↦ ?_
    rw [List.getElem?_map, hitem] at hitem'
    obtain rfl := Option.some.inj hitem'
    exact ih item (List.mem_of_getElem? hitem)
  | @object members hkeys horder hmembers ih =>
    rw [normal_object]
    have hperm := arrange_perm localeCompare (members.map (normalMember localeCompare))
    refine .object (fun key ↦ ?_) fun key value value' hvalue hvalue' ↦ ?_
    · rw [(hperm.map Prod.fst).mem_iff, map_fst_normalMember]
    · obtain ⟨⟨other, inner⟩, hmember, heq⟩ := List.mem_map.mp (hperm.mem_iff.mp hvalue')
      obtain ⟨rfl, rfl⟩ := Prod.mk.inj heq
      obtain rfl := value_unique hkeys hvalue hmember
      exact ih _ hvalue

variable [Std.TransCmp localeCompare]

/-- A normal form is its own normal form. -/
theorem normal_normal (h : IsJson first) :
    normal localeCompare (normal localeCompare first) = normal localeCompare first := by
  induction h with
  | null => rfl
  | boolean value => rfl
  | number hfinite => rw [normal, normal, unsigned_unsigned]
  | string text => rfl
  | array hitems ih =>
    rw [normal_array, normal_array, List.map_map]
    exact congrArg Value.array (List.map_congr_left fun item hitem ↦ ih item hitem)
  | @object members hkeys horder hmembers ih =>
    rw [normal_object, normal_object]
    have hmembers : (arrange localeCompare (members.map (normalMember localeCompare))).map
        (normalMember localeCompare) =
          arrange localeCompare (members.map (normalMember localeCompare)) := by
      refine (List.map_congr_left fun member hmember ↦ ?_).trans (List.map_id _)
      obtain ⟨other, hother, rfl⟩ := List.mem_map.mp ((arrange_perm _ _).mem_iff.mp hmember)
      exact Prod.ext rfl (ih other hother)
    rw [hmembers, arrange_arrange (by rwa [map_fst_normalMember])]

/-- In every object within the value, different keys compare as different, if they are no array
indices. -/
def Separated (localeCompare : Text → Text → Ordering) (value : Value ν) : Prop :=
  ∀ members, Inside (.object members) value → KeysApart localeCompare (members.map Prod.fst)

/-- Values that are equal up to the order of members have one normal form, if keys do not tie. -/
theorem normal_congr (h : Same first second) (hfirst : IsJson first) (hsecond : IsJson second)
    (hseparated : Separated localeCompare first) :
    normal localeCompare first = normal localeCompare second := by
  induction h with
  | null => rfl
  | boolean value => rfl
  | number heq => rw [normal, normal, heq]
  | string text => rfl
  | @array items items' hlength hitems ih =>
    cases hfirst with
    | array hfirst =>
    cases hsecond with
    | array hsecond =>
    rw [normal_array, normal_array]
    refine congrArg Value.array (List.ext_getElem? fun index ↦ ?_)
    rw [List.getElem?_map, List.getElem?_map]
    by_cases hbound : index < items.length
    · have hitem := List.getElem?_eq_getElem hbound
      have hitem' := List.getElem?_eq_getElem (hlength ▸ hbound)
      rw [hitem, hitem', Option.map_some, Option.map_some]
      exact congrArg some (ih index _ _ hitem hitem' (hfirst _ (List.getElem_mem _))
        (hsecond _ (List.getElem_mem _)) fun members hinside ↦
          hseparated members (.item (List.getElem_mem _) hinside))
    · rw [List.getElem?_eq_none (by omega), List.getElem?_eq_none (by omega)]
  | @object members members' hkeys hvalues ih =>
    cases hfirst with
    | object hnodup horder hfirst =>
    cases hsecond with
    | object hnodup' horder' hsecond =>
    rw [normal_object, normal_object]
    have hinner : ∀ key value value', (key, value) ∈ members → (key, value') ∈ members' →
        normal localeCompare value = normal localeCompare value' := by
      intro key value value' hvalue hvalue'
      exact ih key value value' hvalue hvalue' (hfirst _ hvalue) (hsecond _ hvalue')
        fun inner hinside ↦ hseparated inner (.member hvalue hinside)
    have hnodups : (members.map (normalMember localeCompare)).Nodup ∧
        (members'.map (normalMember localeCompare)).Nodup := by
      constructor
      · exact List.Nodup.of_map Prod.fst (by rwa [map_fst_normalMember])
      · exact List.Nodup.of_map Prod.fst (by rwa [map_fst_normalMember])
    refine congrArg Value.object (arrange_congr (by rwa [map_fst_normalMember]) ?_ ?_)
    · rw [List.perm_ext_iff_of_nodup hnodups.1 hnodups.2]
      intro entry
      constructor
      · intro hentry
        obtain ⟨⟨key, value⟩, hvalue, rfl⟩ := List.mem_map.mp hentry
        obtain ⟨⟨_, value'⟩, hvalue', rfl⟩ :=
          List.mem_map.mp ((hkeys key).mp (List.mem_map_of_mem hvalue))
        exact List.mem_map.mpr ⟨_, hvalue', Prod.ext rfl (hinner _ _ _ hvalue hvalue').symm⟩
      · intro hentry
        obtain ⟨⟨key, value'⟩, hvalue', rfl⟩ := List.mem_map.mp hentry
        obtain ⟨⟨_, value⟩, hvalue, rfl⟩ :=
          List.mem_map.mp ((hkeys key).mpr (List.mem_map_of_mem hvalue'))
        exact List.mem_map.mpr ⟨_, hvalue, Prod.ext rfl (hinner _ _ _ hvalue hvalue')⟩
    · rw [map_fst_normalMember]
      exact hseparated members (.refl _)

/-- Where the order of members never matters, no keys tie. -/
theorem separated_of_normal (hjson : IsJson first)
    (h : ∀ second, IsJson second → Same first second →
      normal localeCompare second = normal localeCompare first) : Separated localeCompare first := by
  induction hjson with
  | null => exact fun members hinside ↦ by cases hinside
  | boolean value => exact fun members hinside ↦ by cases hinside
  | number hfinite => exact fun members hinside ↦ by cases hinside
  | string text => exact fun members hinside ↦ by cases hinside
  | @array items hitems ih =>
    intro members hinside
    cases hinside with
    | item hmem hinside =>
    refine ih _ hmem (fun other hother hsame ↦ ?_) members hinside
    -- the array with this item in the place of the one that is the same
    obtain ⟨index, hbound, rfl⟩ := List.getElem_of_mem hmem
    have hjson : IsJson (.array (items.set index other)) := by
      refine .array fun item hitem ↦ ?_
      rcases List.mem_or_eq_of_mem_set hitem with hold | rfl
      · exact hitems item hold
      · exact hother
    have hequal : Same (.array items) (.array (items.set index other)) := by
      refine .array (List.length_set).symm fun place item item' hitem hitem' ↦ ?_
      by_cases hplace : index = place
      · subst hplace
        rw [List.getElem?_set_self hbound] at hitem'
        rw [List.getElem?_eq_getElem hbound] at hitem
        rw [← Option.some.inj hitem, ← Option.some.inj hitem']
        exact hsame
      · rw [List.getElem?_set_ne hplace, hitem] at hitem'
        obtain rfl := Option.some.inj hitem'
        exact Same.refl (hitems item (List.mem_of_getElem? hitem))
    have hnormal := h _ hjson hequal
    rw [normal_array, normal_array] at hnormal
    have hplace := congrArg (fun list : List (Value ν) ↦ list[index]?) (Value.array.inj hnormal)
    simpa [hbound] using hplace
  | @object members hkeys horder hmembers ih =>
    intro inner hinside
    cases hinside with
    | refl =>
      -- the members in the opposite order
      have hperm := turned_perm members
      have hjson : IsJson (.object (turned members)) :=
        .object ((hperm.map Prod.fst).nodup_iff.mpr hkeys) (pairwise_turned horder)
          fun member hmember ↦ hmembers member (hperm.mem_iff.mp hmember)
      have hequal : Same (.object members) (.object (turned members)) := by
        refine .object (fun key ↦ ?_) fun key value value' hvalue hvalue' ↦ ?_
        · exact ((hperm.map Prod.fst).mem_iff).symm
        · obtain rfl := value_unique hkeys hvalue (hperm.mem_iff.mp hvalue')
          exact Same.refl (hmembers _ hvalue)
      have hnormal := h _ hjson hequal
      rw [normal_object, normal_object] at hnormal
      have harrange : arrange localeCompare (turned (members.map (normalMember localeCompare))) =
          arrange localeCompare (members.map (normalMember localeCompare)) :=
        (congrArg _ (turned_map members (normal localeCompare))).trans (Value.object.inj hnormal)
      have hapart := apart_of_arrange_turned (by rwa [map_fst_normalMember]) harrange
      rwa [map_fst_normalMember] at hapart
    | @member member _ hmem hinside =>
      obtain ⟨key, value⟩ := member
      refine ih _ hmem (fun other hother hsame ↦ ?_) inner hinside
      -- the members with this value in the place of the one that is the same
      let put := members.map fun member ↦ if member.1 = key then (key, other) else member
      have hput : put.map Prod.fst = members.map Prod.fst := by
        rw [List.map_map]
        refine List.map_congr_left fun member _ ↦ ?_
        by_cases hmember : member.1 = key <;> simp [hmember]
      have hmemPut : ∀ entry ∈ put, entry = (key, other) ∨ entry.1 ≠ key ∧ entry ∈ members := by
        intro entry hentry
        obtain ⟨member, hmember, rfl⟩ := List.mem_map.mp hentry
        by_cases hname : member.1 = key
        · exact .inl (if_pos hname)
        · rw [if_neg hname]
          exact .inr ⟨hname, hmember⟩
      have hjson : IsJson (.object put) := by
        refine .object (hput ▸ hkeys) (hput ▸ horder) fun entry hentry ↦ ?_
        rcases hmemPut entry hentry with rfl | ⟨-, hold⟩
        · exact hother
        · exact hmembers entry hold
      have hequal : Same (.object members) (.object put) := by
        refine .object (fun name ↦ by rw [hput]) fun name first second hfirst hsecond ↦ ?_
        rcases hmemPut _ hsecond with heq | ⟨-, hold⟩
        · obtain ⟨rfl, rfl⟩ := Prod.mk.inj heq
          obtain rfl := value_unique hkeys hmem hfirst
          exact hsame
        · obtain rfl := value_unique hkeys hfirst hold
          exact Same.refl (hmembers _ hfirst)
      have hnormal := h _ hjson hequal
      rw [normal_object, normal_object] at hnormal
      have hentry : (key, normal localeCompare other) ∈
          arrange localeCompare (put.map (normalMember localeCompare)) := by
        rw [(arrange_perm _ _).mem_iff]
        refine List.mem_map.mpr ⟨(key, other), ?_, rfl⟩
        exact List.mem_map.mpr ⟨_, hmem, if_pos rfl⟩
      rw [Value.object.inj hnormal, (arrange_perm _ _).mem_iff] at hentry
      obtain ⟨⟨name, found⟩, hfound, heq⟩ := List.mem_map.mp hentry
      obtain ⟨rfl, hnormals⟩ := Prod.mk.inj heq
      obtain rfl := value_unique hkeys hmem hfound
      exact hnormals.symm

/-- What makes the text of a value canonical: values that are equal up to the order of members have
its text and other values do not, and it reads back as the value and is its text again. -/
structure Canonical (localeCompare : Text → Text → Ordering) (value : Value ν) : Prop where
  ordered : ∀ other, IsJson other → Same value other →
    canonicalJson localeCompare other = canonicalJson localeCompare value
  different : ∀ other, IsJson other → ¬ Same value other →
    canonicalJson localeCompare other ≠ canonicalJson localeCompare value
  parsed : ∃ text other, canonicalJson localeCompare value = .ok text ∧ parse text = some other ∧
    IsJson other ∧ Same value other ∧ canonicalJson localeCompare other = .ok text

omit [Std.TransCmp localeCompare] in
theorem canonicalJson_eq (h : IsJson first) :
    canonicalJson localeCompare first = .ok (stringify (normal localeCompare first) ++ [10]) := by
  unfold canonicalJson
  rw [normalize_eq h]
  rfl

omit [Std.TransCmp localeCompare] in
theorem normal_eq_of_canonicalJson (hfirst : IsJson first) (hsecond : IsJson second)
    (h : canonicalJson localeCompare first = canonicalJson localeCompare second) :
    normal localeCompare first = normal localeCompare second := by
  rw [canonicalJson_eq hfirst, canonicalJson_eq hsecond] at h
  have hread := parse_stringify (formed_normal localeCompare hfirst)
  rw [Except.ok.inj h, parse_stringify (formed_normal _ hsecond)] at hread
  exact (Option.some.inj hread).symm

/-- The text of a JSON value is canonical exactly if in no object within it two different keys, neither
an array index, compare as equal. -/
theorem canonicalJson_canonical_iff (localeCompare : Text → Text → Ordering)
    [Std.TransCmp localeCompare] {value : Value ν} (h : IsJson value) :
    Canonical localeCompare value ↔ Separated localeCompare value := by
  constructor
  · intro hcanonical
    exact separated_of_normal h fun other hother hsame ↦
      normal_eq_of_canonicalJson hother h (hcanonical.ordered other hother hsame)
  · intro hseparated
    refine ⟨fun other hother hsame ↦ ?_, fun other hother hdifferent htext ↦ ?_, ?_⟩
    · rw [canonicalJson_eq h, canonicalJson_eq hother, normal_congr hsame h hother hseparated]
    · apply hdifferent
      have hnormal := normal_eq_of_canonicalJson hother h htext
      have hback := (same_normal localeCompare hother).symm
      rw [hnormal] at hback
      exact (same_normal _ h).trans hback
    · have hjson := isJson_of_printable (formed_normal localeCompare h)
      refine ⟨_, normal localeCompare value, canonicalJson_eq h,
        parse_stringify (formed_normal _ h), hjson, same_normal _ h, ?_⟩
      rw [canonicalJson_eq hjson, normal_normal h]

end

/-! ### Keys that look alike

The letter é is one code unit, or the letter e and a combining accent. The two texts are canonically
equivalent, so `localeCompare` reports them as equal. -/

section

/-- A comparison that does not tell the two apart. -/
def compareLetters : Text → Text → Ordering :=
  compareOn fun text ↦ text.flatMap fun unit ↦ if unit = 0xE9 then [0x65, 0x301] else [unit]

instance : Std.TransCmp compareLetters := inferInstanceAs (Std.TransCmp (compareOn _))

/-- The letter as one unit and as two. -/
def composed : Text := [0xE9]

def decomposed : Text := [0x65, 0x301]

/-- An object with two plain keys. -/
def plainObject : Value ℕ := .object [(word "b", .number 1), (word "a", .null)]

theorem isJson_object_pair {first second : Text} {value value' : Value ℕ} (hne : first ≠ second)
    (hsecond : arrayIndex second = none) (hvalue : IsJson value) (hvalue' : IsJson value') :
    IsJson (.object [(first, value), (second, value')]) := by
  refine .object (by simp [hne]) ?_ ?_
  · simp [Precedes, hsecond]
  · simp only [List.forall_mem_cons, List.not_mem_nil, false_imp_iff, implies_true, and_true]
    exact ⟨hvalue, hvalue'⟩

theorem plainObject_isJson : IsJson plainObject :=
  isJson_object_pair (by decide) (by decide +kernel) (.number rfl) .null

theorem canonicalJson_canonical_plain : Canonical compareLetters plainObject := by
  refine (canonicalJson_canonical_iff compareLetters plainObject_isJson).mpr fun members hinside ↦ ?_
  cases hinside with
  | refl =>
    have hkeys : ∀ key ∈ [word "b", word "a"], ∀ key' ∈ [word "b", word "a"],
        compareLetters key key' = .eq → key = key' := by decide +kernel
    exact fun key hkey key' hkey' _ _ ↦ hkeys key hkey key' hkey'
  | member hmem hinside =>
    simp only [List.mem_cons, List.not_mem_nil, or_false] at hmem
    rcases hmem with rfl | rfl <;> cases hinside

/-- Two objects that differ in the order of members only have different texts. -/
theorem exists_not_canonical :
    ∃ value other : Value ℕ, IsJson value ∧ IsJson other ∧ Same value other ∧
      canonicalJson compareLetters value ≠ canonicalJson compareLetters other := by
  have hcomposed : arrayIndex composed = none := by decide +kernel
  have hdecomposed : arrayIndex decomposed = none := by decide +kernel
  refine ⟨.object [(composed, .number 1), (decomposed, .number 2)],
    .object [(decomposed, .number 2), (composed, .number 1)],
    isJson_object_pair (by decide) hdecomposed (.number rfl) (.number rfl),
    isJson_object_pair (by decide) hcomposed (.number rfl) (.number rfl), ?_,
    by decide +kernel⟩
  refine .object (fun key ↦ ?_) fun key first second hfirst hsecond ↦ ?_
  · simp [or_comm]
  · simp only [List.mem_cons, Prod.mk.injEq, List.not_mem_nil, or_false] at hfirst hsecond
    rcases hfirst with ⟨rfl, rfl⟩ | ⟨rfl, rfl⟩
    · rcases hsecond with ⟨heq, -⟩ | ⟨-, rfl⟩
      · exact absurd heq (by decide)
      · exact .number rfl
    · rcases hsecond with ⟨-, rfl⟩ | ⟨heq, -⟩
      · exact .number rfl
      · exact absurd heq (by decide)

end

end HarborHF.Contracts
