import BuiltOnEnvoy.Extensions.Download
import BuiltOnEnvoy.Foundations.Semver

/-!
# The latest tag of a repository

The client sorts the tags of a repository by their version, and the downloader
takes the first one that it may use.
-/

namespace BuiltOnEnvoy.Extensions

open Foundations List

variable {α : Type} [LinearOrder α] (semver : Semver α)

/-- The outcomes of the client's `Tags` on what the registry lists page by page. `sort.Slice` is
not stable: it leaves some order in which no tag is newer than one before it. -/
inductive Tags : Except String (List (List String)) → Except String (List String) → Prop
  | failed (err : String) : Tags (.error err) (.error ("failed to list tags: " ++ err))
  | listed (pages : List (List String)) (tags : List String) (perm : tags.Perm pages.flatten)
    (sorted : tags.Pairwise fun a b => semver.compare ("v" ++ b) ("v" ++ a) ≠ .gt) :
    Tags (.ok pages) (.ok tags)

/-- A tag that may be chosen. -/
def Eligible (allowDevVersions : Bool) (tag : String) : Prop :=
  allowDevVersions = true ∨ ¬"-dev".toList <:+ tag.toList

/-- No eligible tag of the registry is newer; a text that is no version is older than all. -/
structure IsLatest (pages : List (List String)) (allowDevVersions : Bool) (tag : String) :
    Prop where
  listed : tag ∈ pages.flatten
  eligible : Eligible allowDevVersions tag
  newest : ∀ other ∈ pages.flatten, Eligible allowDevVersions other →
    semver.version ("v" ++ other) ≤ semver.version ("v" ++ tag)

theorem eligible_iff (allowDevVersions : Bool) (tag : String) :
    (allowDevVersions || !hasDevSuffix tag) = true ↔ Eligible allowDevVersions tag := by
  rw [Bool.or_eq_true, Bool.not_eq_true', ← Bool.not_eq_true, hasDevSuffix,
    isSuffixOf_iff_suffix, Eligible]

theorem compare_ne_gt_iff (a b : String) :
    semver.compare a b ≠ .gt ↔ semver.version a ≤ semver.version b := by
  rw [Semver.compare, Ne, cmp_eq_gt_iff, not_lt]

/-- The first eligible tag of the sorted list has only ineligible ones before it and none that is
newer behind it. -/
theorem isLatest_of_find? {semver : Semver α} {pages : List (List String)} {tags : List String}
    {allowDevVersions : Bool} {tag : String} (perm : tags.Perm pages.flatten)
    (sorted : tags.Pairwise fun a b => semver.compare ("v" ++ b) ("v" ++ a) ≠ .gt)
    (hfind : (tags.find? fun tag => allowDevVersions || !hasDevSuffix tag) = some tag) :
    IsLatest semver pages allowDevVersions tag := by
  obtain ⟨heligible, older, rest, rfl, hbefore⟩ := find?_eq_some_iff_append.mp hfind
  have hnewest := (pairwise_cons.mp (pairwise_append.mp sorted).2.1).1
  refine ⟨perm.mem_iff.mp (by simp), (eligible_iff _ _).mp heligible, fun other hmem hother => ?_⟩
  rcases mem_append.mp (perm.mem_iff.mpr hmem) with hskipped | hrest
  · have hineligible := hbefore other hskipped
    rw [(eligible_iff _ _).mpr hother] at hineligible
    exact absurd hineligible (by decide)
  · rcases mem_cons.mp hrest with rfl | hbehind
    · exact le_rfl
    · exact (compare_ne_gt_iff semver _ _).mp (hnewest other hbehind)

/-- For whatever the registry lists, the chosen tag is a latest one, and choosing fails exactly
when no tag is eligible. -/
theorem getLatestTag_isLatest (pages : List (List String)) (client : RepositoryClient)
    (htags : Tags semver (.ok pages) client.tags) (repository : String)
    (allowDevVersions : Bool) :
    (∀ tag, getLatestTag client repository allowDevVersions = .ok tag →
      IsLatest semver pages allowDevVersions tag) ∧
    ((∃ err, getLatestTag client repository allowDevVersions = .error err) ↔
      ∀ tag ∈ pages.flatten, ¬Eligible allowDevVersions tag) := by
  generalize hlisted : client.tags = listed at htags
  cases htags with
  | listed _ tags perm sorted =>
    unfold getLatestTag
    simp only [hlisted]
    cases hfind : tags.find? fun tag => allowDevVersions || !hasDevSuffix tag with
    | some found =>
      have hlatest := isLatest_of_find? perm sorted hfind
      refine ⟨fun tag htag => ?_, fun herr => ?_, fun hnone => ?_⟩
      · cases htag
        exact hlatest
      · obtain ⟨_, herr⟩ := herr
        cases herr
      · exact absurd hlatest.eligible (hnone found hlatest.listed)
    | none =>
      refine ⟨fun _ htag => (nomatch htag), fun _ tag htag heligible => ?_, fun _ => ⟨_, rfl⟩⟩
      have hineligible := find?_eq_none.mp hfind tag (perm.mem_iff.mpr htag)
      exact hineligible ((eligible_iff _ _).mpr heligible)

/-- The tenth minor release is newer than the second one, on whatever page it is listed. -/
theorem tenthMinor_isLatest :
    IsLatest Semver.releasesOnly [["1.2.0"], ["1.10.0"]] false "1.10.0" := by
  have hsorted : Semver.releasesOnly.compare ("v" ++ "1.2.0") ("v" ++ "1.10.0") ≠ .gt := by
    rw [show "1.2.0" = (Release.ofNumbers 1 2 0).text by decide,
      show "1.10.0" = (Release.ofNumbers 1 10 0).text by decide, Semver.compare_release]
    decide
  let client : RepositoryClient := ⟨.ok ["1.10.0", "1.2.0"], fun _ => .error "", fun _ _ => none⟩
  have hlisted : Tags Semver.releasesOnly (.ok [["1.2.0"], ["1.10.0"]]) client.tags :=
    .listed _ _ (by decide) (by simpa using hsorted)
  exact (getLatestTag_isLatest _ _ client hlisted "extension-example" false).1 _ (by decide)

end BuiltOnEnvoy.Extensions
