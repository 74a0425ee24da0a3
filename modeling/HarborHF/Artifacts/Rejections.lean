import HarborHF.Json.Dumps
import HarborHF.Numbers.Bisection
import HarborHF.Relational.Dict
import Mathlib.Data.List.Dedup

/-!
# The record of rejected artifacts

What has been rejected, the last rejection of each path, is sorted by path and recorded with the
number of rejections that are left out. The record holds as many of the first rejections as its limit
allows, which a bisection finds: one more rejection makes the record longer, also where the number
that is left out loses a digit (`length_payload_lt`).
-/

set_option autoImplicit false

namespace HarborHF.Rejections

open Json Encodings Relational

/-! ### The record -/

inductive Reason
  | symlink
  | specialFile
  | fileSize
  | bundleSize
  | reservedPath
  deriving DecidableEq

def Reason.text : Reason → Text
  | .symlink => word "symlink"
  | .specialFile => word "special_file"
  | .fileSize => word "file_size"
  | .bundleSize => word "bundle_size"
  | .reservedPath => word "reserved_path"

structure Rejection where
  path : Text
  reason : Reason
  size : Option ℕ
  deriving DecidableEq

def Rejection.modelDump (rejection : Rejection) : Value ℕ :=
  .object [(word "path", .string rejection.path), (word "reason", .string rejection.reason.text),
    (word "size", match rejection.size with | some size => .number size | none => .null)]

structure Record where
  rejections : List Rejection
  omittedCount : ℕ

def Record.value (record : Record) : Value ℕ :=
  .object [(word "schema_version", .string (word "harbor-hf/private-artifact-rejections/v1")),
    (word "rejections", .array (record.rejections.map Rejection.modelDump)),
    (word "omitted_count", .number record.omittedCount)]

/-- The bytes of a record, which end with a newline. -/
def Record.bytes (record : Record) : List UInt8 := utf8 (dumps record.value ++ [10])

/-- The record of the first rejections, `count` of them. -/
def rejectionRecord (rejected : List Rejection) (count baseOmittedCount : ℕ) : Record :=
  ⟨rejected.take count, baseOmittedCount + rejected.length - count⟩

def rejectionPayload (rejected : List Rejection) (count baseOmittedCount : ℕ) : List UInt8 :=
  (rejectionRecord rejected count baseOmittedCount).bytes

/-- The last rejection of each path, in the order in which the paths first occur. -/
def byPath (rejected : List Rejection) : Dict Text Rejection :=
  rejected.foldl (fun dict rejection ↦ dict.set rejection.path rejection) []

def canonical (rejected : List Rejection) : List Rejection :=
  (sortKeys ((byPath rejected).values.map fun rejection ↦ (rejection.path, rejection))).map Prod.snd

/-- The rejections that are kept and the record, `none` for no record. -/
def writeRejections (rejected : List Rejection) (maxRecordBytes : ℤ) (baseOmittedCount : ℕ) :
    List Rejection × Option (List UInt8) :=
  if canonical rejected = [] ∧ baseOmittedCount = 0 then ([], none)
  else
    let payload := fun count : ℤ ↦
      rejectionPayload (canonical rejected) count.toNat baseOmittedCount
    let selected := Bisection.search
      (fun count ↦ decide (((payload count).length : ℤ) ≤ maxRecordBytes))
      (fun count ↦ (payload count, count)) 0 (canonical rejected).length ([], 0)
    if selected.1 = [] then ([], none)
    else ((canonical rejected).take selected.2.toNat, some selected.1)

/-! ### One more rejection makes the record longer -/

theorem length_decimal_succ (value : ℕ) :
    (decimal (value + 1)).length ≤ (decimal value).length + 1 := by
  have hpositive : 0 < (Nat.toDigits 10 value).length := Nat.length_toDigits_pos
  have hbound : value < 10 ^ (Nat.toDigits 10 value).length :=
    (Nat.length_toDigits_le_iff (by decide) hpositive).mp le_rfl
  rw [decimal, decimal, List.length_map, List.length_map,
    Nat.length_toDigits_le_iff (by decide) (by omega), Nat.pow_succ]
  omega

theorem length_commas_append_singleton (texts : List Text) (text : Text) :
    (commas texts).length + text.length ≤ (commas (texts ++ [text])).length := by
  induction texts using commas.induct with
  | case1 => simp [commas]
  | case2 other => simp [commas]
  | case3 other next rest ih =>
    rw [List.cons_append, List.cons_append, commas, commas, List.length_append, List.length_append,
      List.length_cons, List.length_cons]
    rw [List.cons_append] at ih
    omega

theorem length_modelDump (rejection : Rejection) : 2 ≤ (dumps rejection.modelDump).length := by
  rw [Rejection.modelDump, dumps, List.length_cons, List.length_append, List.length_singleton]
  omega

def recordKeys : List Text := [word "omitted_count", word "rejections", word "schema_version"]

/-- Of a record the number left out and the list of rejections vary in length. -/
theorem length_dumps_value (record : Record) : (dumps record.value).length =
    (decimal record.omittedCount).length +
      (dumps (.array (record.rejections.map Rejection.modelDump)) : Text).length + 92 := by
  have hobject := dumps_object (ν := ℕ) [(word "schema_version",
        .string (word "harbor-hf/private-artifact-rejections/v1")),
      (word "rejections", .array (record.rejections.map Rejection.modelDump)),
      (word "omitted_count", .number record.omittedCount)]
    [(word "omitted_count", .number record.omittedCount),
      (word "rejections", .array (record.rejections.map Rejection.modelDump)),
      (word "schema_version", .string (word "harbor-hf/private-artifact-rejections/v1"))]
    recordKeys (by simp) (by simp) (by simp only [List.map_cons, List.map_nil, recordKeys])
    (by decide +kernel) (plain_of_all (by decide +kernel))
  have hversion : (dumps (.string (word "harbor-hf/private-artifact-rejections/v1") :
      Value ℕ)).length = 42 := by decide +kernel
  have hnumber : dumps (.number record.omittedCount) = decimal record.omittedCount := rfl
  have hkeys : (quote (word "omitted_count")).length = 15 ∧ (quote (word "rejections")).length = 12 ∧
      (quote (word "schema_version")).length = 16 := by decide +kernel
  rw [Record.value, hobject]
  simp only [List.map_cons, List.map_nil, commas, List.length_cons, List.length_append,
    List.length_nil, hkeys, hversion, hnumber]
  omega

theorem length_bytes (record : Record) : record.bytes.length = (dumps record.value).length + 1 := by
  have hascii : AsciiText (dumps record.value ++ [10]) :=
    ascii_append (ascii_dumps _) (ascii_of_all (by decide))
  rw [Record.bytes, length_utf8_of_ascii hascii, List.length_append]
  rfl

variable {rejected : List Rejection} {count other baseOmittedCount : ℕ}

/-- The record of one more rejection is longer: its text has two units at least, and the number that
is left out loses one digit at most. -/
theorem length_payload_succ (h : count < rejected.length) :
    (rejectionPayload rejected count baseOmittedCount).length <
      (rejectionPayload rejected (count + 1) baseOmittedCount).length := by
  have htake : rejected.take (count + 1) = rejected.take count ++ [rejected[count]] :=
    List.take_succ_eq_append_getElem h
  have homitted : baseOmittedCount + rejected.length - count =
      baseOmittedCount + rejected.length - (count + 1) + 1 := by omega
  have hdigits := length_decimal_succ (baseOmittedCount + rejected.length - (count + 1))
  have hitem := length_modelDump rejected[count]
  have hitems := length_commas_append_singleton
    (((rejected.take count).map Rejection.modelDump).map dumps) (dumps rejected[count].modelDump)
  simp only [rejectionPayload, rejectionRecord, length_bytes, length_dumps_value, htake, homitted,
    dumps_array, List.map_append, List.map_cons, List.map_nil, List.length_cons, List.length_append,
    List.length_nil]
  omega

theorem length_payload_lt (hlt : count < other) (hle : other ≤ rejected.length) :
    (rejectionPayload rejected count baseOmittedCount).length <
      (rejectionPayload rejected other baseOmittedCount).length := by
  induction other with
  | zero => omega
  | succ other ih =>
    have hstep := @length_payload_succ rejected other baseOmittedCount hle
    rcases Nat.lt_succ_iff_lt_or_eq.mp hlt with hbefore | rfl
    · exact (ih hbefore (by omega)).trans hstep
    · exact hstep

/-! ### The rejections that are recorded -/

/-- A rejection is recorded if it is the last one of its path. -/
def IsLast (rejected : List Rejection) (rejection : Rejection) : Prop :=
  (rejected.filter fun other ↦ other.path = rejection.path).getLast? = some rejection

theorem get?_byPath (rejected : List Rejection) (path : Text) : (byPath rejected).get? path =
      (rejected.filter fun rejection ↦ rejection.path = path).getLast? := by
  unfold byPath
  refine (@Dict.get?_foldl_set _ _ _ path [] _ Rejection.path id rejected).trans ?_
  rw [Dict.get?_nil, Option.or_none, Option.map_id, id]

theorem nodup_byPath (rejected : List Rejection) : (byPath rejected).keys.Nodup :=
  @Dict.nodup_keys_foldl_set _ _ _ [] _ Rejection.path id rejected List.nodup_nil

theorem mem_byPath_iff {path : Text} {rejection : Rejection} : (path, rejection) ∈ byPath rejected ↔
      rejection.path = path ∧ IsLast rejected rejection := by
  rw [← Dict.get?_eq_some_iff (nodup_byPath rejected), get?_byPath]
  constructor
  · intro h
    have hpath : rejection.path = path :=
      of_decide_eq_true (List.mem_filter.mp (List.mem_of_getLast? h)).2
    exact ⟨hpath, by rw [IsLast, hpath]; exact h⟩
  · rintro ⟨rfl, hlast⟩
    exact hlast

theorem mem_keys_byPath_iff {path : Text} :
    path ∈ (byPath rejected).keys ↔ path ∈ rejected.map Rejection.path := by
  rw [← Dict.get?_isSome_iff, get?_byPath, List.getLast?_isSome, Ne, List.filter_eq_nil_iff,
    List.mem_map]
  simp

theorem canonical_perm (rejected : List Rejection) :
    (canonical rejected).Perm (byPath rejected).values := by
  have hsorted := (sortKeys_perm
    ((byPath rejected).values.map fun rejection ↦ (rejection.path, rejection))).map Prod.snd
  rwa [List.map_map, Function.comp_def, List.map_id'] at hsorted

theorem mem_canonical_iff {rejection : Rejection} :
    rejection ∈ canonical rejected ↔ IsLast rejected rejection := by
  rw [(canonical_perm rejected).mem_iff, Dict.mem_values_iff]
  constructor
  · rintro ⟨path, hmem⟩
    exact (mem_byPath_iff.mp hmem).2
  · exact fun hlast ↦ ⟨rejection.path, mem_byPath_iff.mpr ⟨rfl, hlast⟩⟩

theorem map_path_byPath (rejected : List Rejection) :
    (byPath rejected).values.map Rejection.path = (byPath rejected).keys := by
  rw [Dict.values, Dict.keys, List.map_map]
  exact List.map_congr_left fun entry hentry ↦ (mem_byPath_iff.mp hentry).1

theorem nodup_canonical (rejected : List Rejection) :
    ((canonical rejected).map Rejection.path).Nodup := by
  rw [((canonical_perm rejected).map Rejection.path).nodup_iff, map_path_byPath]
  exact nodup_byPath rejected

theorem pairwise_canonical (rejected : List Rejection) :
    (canonical rejected).Pairwise fun first second ↦
      codePoints first.path ≤ codePoints second.path := by
  rw [canonical, List.pairwise_map]
  refine (List.pairwise_insertionSort PointLE _).imp_of_mem fun {first second} hfirst hsecond hle ↦ ?_
  have hpath {entry : Text × Rejection} (hentry : entry ∈ sortKeys
      ((byPath rejected).values.map fun rejection ↦ (rejection.path, rejection))) :
      entry.2.path = entry.1 := by
    obtain ⟨rejection, -, rfl⟩ := List.mem_map.mp ((sortKeys_perm _).mem_iff.mp hentry)
    rfl
  rw [hpath hfirst, hpath hsecond]
  exact hle

theorem length_canonical (rejected : List Rejection) :
    (canonical rejected).length = (rejected.map Rejection.path).dedup.length := by
  have hperm : (byPath rejected).keys.Perm (rejected.map Rejection.path).dedup :=
    (List.perm_ext_iff_of_nodup (nodup_byPath rejected) (List.nodup_dedup _)).mpr fun path ↦ by
      rw [mem_keys_byPath_iff, List.mem_dedup]
  rw [(canonical_perm rejected).length_eq, ← hperm.length_eq, ← map_path_byPath, List.length_map]

/-! ### The longest record -/

def Fits (rejected : List Rejection) (maxRecordBytes : ℤ) (baseOmittedCount count : ℕ) : Prop :=
  ((rejectionPayload rejected count baseOmittedCount).length : ℤ) ≤ maxRecordBytes

/-- The greatest number of the first rejections whose record fits. -/
structure IsGreatest (rejected : List Rejection) (maxRecordBytes : ℤ) (baseOmittedCount count : ℕ) :
    Prop where
  bound : count ≤ rejected.length
  fits : Fits rejected maxRecordBytes baseOmittedCount count
  above : ∀ other, count < other → other ≤ rejected.length →
    ¬Fits rejected maxRecordBytes baseOmittedCount other

theorem exists_isGreatest {maxRecordBytes : ℤ} (hbound : count ≤ rejected.length)
    (hfits : Fits rejected maxRecordBytes baseOmittedCount count) :
    ∃ greatest, IsGreatest rejected maxRecordBytes baseOmittedCount greatest := by
  classical
  have hcount : Fits rejected maxRecordBytes baseOmittedCount
      (Nat.findGreatest (Fits rejected maxRecordBytes baseOmittedCount) rejected.length) :=
    Nat.findGreatest_spec hbound hfits
  exact ⟨_, Nat.findGreatest_le _, hcount, fun other hlt hle ↦ Nat.findGreatest_is_greatest hlt hle⟩

theorem IsGreatest.fits_iff {maxRecordBytes : ℤ}
    (h : IsGreatest rejected maxRecordBytes baseOmittedCount count) (hle : other ≤ rejected.length) :
    Fits rejected maxRecordBytes baseOmittedCount other ↔ other ≤ count := by
  constructor
  · intro hfits
    by_contra hgt
    exact h.above other (by omega) hle hfits
  · intro hother
    rcases hother.lt_or_eq with hlt | rfl
    · have hlength := @length_payload_lt rejected other count baseOmittedCount hlt h.bound
      have hfits := h.fits
      unfold Fits at hfits ⊢
      omega
    · exact h.fits

theorem rejectionPayload_ne_nil : rejectionPayload rejected count baseOmittedCount ≠ [] := by
  intro hnil
  have hlength := length_bytes (rejectionRecord rejected count baseOmittedCount)
  rw [rejectionPayload] at hnil
  rw [hnil] at hlength
  cases hlength

theorem eq_nil_of_canonical (h : canonical rejected = []) : rejected = [] := by
  have hlength := length_canonical rejected
  rw [h, List.length_nil] at hlength
  have hdedup := List.eq_nil_of_length_eq_zero hlength.symm
  exact List.map_eq_nil_iff.mp ((List.dedup_eq_nil _).mp hdedup)

variable {maxRecordBytes : ℤ}

theorem writeRejections_of_not_fits (hsome : ¬(canonical rejected = [] ∧ baseOmittedCount = 0))
    (h : ∀ count ≤ (canonical rejected).length,
      ¬Fits (canonical rejected) maxRecordBytes baseOmittedCount count) :
    writeRejections rejected maxRecordBytes baseOmittedCount = ([], none) := by
  rw [writeRejections, if_neg hsome]
  dsimp only
  rw [Bisection.search_of_rejected, if_pos rfl]
  intro count hlow hhigh
  exact decide_eq_false (h count.toNat (by omega))

theorem writeRejections_of_isGreatest (hsome : ¬(canonical rejected = [] ∧ baseOmittedCount = 0))
    (h : IsGreatest (canonical rejected) maxRecordBytes baseOmittedCount count) :
    writeRejections rejected maxRecordBytes baseOmittedCount =
      ((canonical rejected).take count,
        some (rejectionPayload (canonical rejected) count baseOmittedCount)) := by
  have hbound := h.bound
  rw [writeRejections, if_neg hsome]
  dsimp only
  rw [Bisection.search_of_accepted (Int.natCast_nonneg count) (Int.ofNat_le.mpr hbound)]
  · dsimp only
    rw [Int.toNat_natCast, if_neg rejectionPayload_ne_nil]
  · intro other hlow hhigh
    have hfits := h.fits_iff (show other.toNat ≤ (canonical rejected).length by omega)
    rw [decide_eq_true_iff]
    exact hfits.trans (by omega)

/-- The record that is written is the longest that fits and counts every rejected path; none is
written if there is nothing to record or not even the shortest one fits. -/
theorem writeRejections_longest (rejected : List Rejection) (maxRecordBytes : ℤ)
    (baseOmittedCount : ℕ) :
    ((∀ rejection, rejection ∈ canonical rejected ↔ IsLast rejected rejection) ∧
      ((canonical rejected).map Rejection.path).Nodup ∧
      (canonical rejected).Pairwise fun first second ↦
        codePoints first.path ≤ codePoints second.path) ∧
    (writeRejections rejected maxRecordBytes baseOmittedCount = ([], none) ∧
        (rejected = [] ∧ baseOmittedCount = 0 ∨
          ∀ count ≤ (canonical rejected).length,
            ¬Fits (canonical rejected) maxRecordBytes baseOmittedCount count) ∨
      ∃ (count : ℕ) (record : Record),
        IsGreatest (canonical rejected) maxRecordBytes baseOmittedCount count ∧
        writeRejections rejected maxRecordBytes baseOmittedCount =
          (record.rejections, some record.bytes) ∧
        record.rejections = (canonical rejected).take count ∧
        record.rejections.length + record.omittedCount =
          baseOmittedCount + (rejected.map Rejection.path).dedup.length) := by
  refine ⟨⟨fun rejection ↦ mem_canonical_iff, nodup_canonical rejected,
    pairwise_canonical rejected⟩, ?_⟩
  by_cases hsome : canonical rejected = [] ∧ baseOmittedCount = 0
  · exact .inl ⟨by rw [writeRejections, if_pos hsome],
      .inl ⟨eq_nil_of_canonical hsome.1, hsome.2⟩⟩
  by_cases hnone : ∀ count ≤ (canonical rejected).length,
      ¬Fits (canonical rejected) maxRecordBytes baseOmittedCount count
  · exact .inl ⟨writeRejections_of_not_fits hsome hnone, .inr hnone⟩
  · push Not at hnone
    obtain ⟨count, hbound, hfits⟩ := hnone
    obtain ⟨greatest, hgreatest⟩ := exists_isGreatest hbound hfits
    refine .inr ⟨greatest, rejectionRecord (canonical rejected) greatest baseOmittedCount, hgreatest,
      writeRejections_of_isGreatest hsome hgreatest, rfl, ?_⟩
    have hle := hgreatest.bound
    have hlength : ((canonical rejected).take greatest).length = greatest :=
      List.length_take_of_le hle
    rw [← length_canonical]
    show ((canonical rejected).take greatest).length +
      (baseOmittedCount + (canonical rejected).length - greatest) = _
    omega

end HarborHF.Rejections
