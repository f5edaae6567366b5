import BuiltOnEnvoy.Extensions.Download
import BuiltOnEnvoy.Foundations.Semver

/-!
# Envoy versions of extensions

A manifest may bound the Envoy versions it works with on both sides. The version
for a list of manifests is found from the highest minimum and the lowest
maximum; it is the smallest release that all of them support.
-/

namespace BuiltOnEnvoy.Extensions

open Foundations List

/-- `Manifest`, with the bounds of the Envoy version. -/
structure VersionedManifest extends Manifest where
  minEnvoyVersion : String := ""
  maxEnvoyVersion : String := ""

variable {α : Type} [LinearOrder α] (semver : Semver α)

def VersionedManifest.supportsEnvoyVersion (m : VersionedManifest) (version : String) : Bool :=
  if version = "dev" ∨ version = "dev-latest" then true
  else if m.minEnvoyVersion ≠ "" ∧
      semver.compare ("v" ++ version) ("v" ++ m.minEnvoyVersion) = .lt then false
  else if m.maxEnvoyVersion ≠ "" ∧
      semver.compare ("v" ++ version) ("v" ++ m.maxEnvoyVersion) = .gt then false
  else true

/-- The bound that beats all others, beginning with one that stands for none. -/
def best (bound : VersionedManifest → String) (beats : Ordering) (start : String)
    (manifests : List VersionedManifest) : String :=
  manifests.foldl (fun best m =>
    if bound m ≠ "" ∧ semver.compare ("v" ++ bound m) ("v" ++ best) = beats then bound m
    else best) start

def highestMinEnvoyVersion (manifests : List VersionedManifest) : String :=
  let highest := best semver (·.minEnvoyVersion) .gt "0.0.0" manifests
  if highest = "0.0.0" then "" else highest

def lowestMaxEnvoyVersion (manifests : List VersionedManifest) : String :=
  let lowest := best semver (·.maxEnvoyVersion) .lt "9999.9999.9999" manifests
  if lowest = "9999.9999.9999" then "" else lowest

def resolveMinimumCompatibleEnvoyVersion (manifests : List VersionedManifest) :
    Except String String :=
  let highestMin := highestMinEnvoyVersion semver manifests
  let lowestMax := lowestMaxEnvoyVersion semver manifests
  if highestMin ≠ "" ∧ lowestMax ≠ "" ∧
      semver.compare ("v" ++ highestMin) ("v" ++ lowestMax) = .gt then
    .error ("no compatible Envoy version found: highest minimum " ++ highestMin ++
      ", lowest maximum " ++ lowestMax)
  else if highestMin ≠ "" then .ok highestMin
  else if lowestMax ≠ "" then .ok lowestMax
  else .ok ""

/-- The text is no bound or a release below the largest sentinel. -/
def IsBound (text : String) : Prop :=
  text = "" ∨ ∃ v : Release, text = v.text ∧ v < .ofNumbers 9999 9999 9999

structure VersionedManifest.Bounded (m : VersionedManifest) : Prop where
  min : IsBound m.minEnvoyVersion
  max : IsBound m.maxEnvoyVersion

/-- All manifests support the release. -/
def Compatible (manifests : List VersionedManifest) (v : Release) : Prop :=
  ∀ m ∈ manifests, m.supportsEnvoyVersion semver v.text = true

variable {semver} {manifests : List VersionedManifest}

/-- Where `r` holds between the winner of a comparison and a version if it holds
for both sides, it holds between the best bound and a version if it holds for all. -/
theorem exists_best {bound : VersionedManifest → String} {beats : Ordering}
    {r : Release → Release → Prop}
    (hr : ∀ v w u, r (if cmp v w = beats then v else w) u ↔ r v u ∧ r w u)
    (hbound : ∀ m ∈ manifests, IsBound (bound m)) (start : Release) :
    ∃ v : Release, best semver bound beats start.text manifests = v.text ∧
      ∀ u, r v u ↔ r start u ∧ ∀ m ∈ manifests, ∀ w : Release, bound m = w.text → r w u := by
  induction manifests generalizing start with
  | nil => exact ⟨start, rfl, by simp⟩
  | cons m rest ih =>
    obtain ⟨hm, hrest⟩ := forall_mem_cons.mp hbound
    simp only [best, foldl_cons, forall_mem_cons]
    obtain hnone | ⟨w, hw, -⟩ := hm
    · rw [if_neg (by simp [hnone])]
      obtain ⟨v, hv, hall⟩ := ih hrest start
      refine ⟨v, hv, fun u => ?_⟩
      simp [hall, hnone]
    · have hstep : (if bound m ≠ "" ∧ semver.compare ("v" ++ bound m) ("v" ++ start.text) = beats
          then bound m else start.text) = (if cmp w start = beats then w else start).text := by
        simp [hw, Semver.compare_release, apply_ite Release.text]
      rw [hstep]
      obtain ⟨v, hv, hall⟩ := ih hrest (if cmp w start = beats then w else start)
      refine ⟨v, hv, fun u => ?_⟩
      simp only [hall, hr, hw, Release.text_injective.eq_iff, forall_eq']
      tauto

theorem beyond_iff {text : String} (h : IsBound text) {v : Release} {beyond : Ordering}
    {r : Release → Prop} (hr : ∀ w, cmp v w = beyond ↔ ¬r w) :
    (text ≠ "" ∧ semver.compare ("v" ++ v.text) ("v" ++ text) = beyond) ↔
      ¬∀ w : Release, text = w.text → r w := by
  obtain rfl | ⟨w, rfl, -⟩ := h
  · simp
  · simp [Semver.compare_release, Release.text_injective.eq_iff, hr]

theorem supportsEnvoyVersion_iff {m : VersionedManifest} (h : m.Bounded) (v : Release) :
    m.supportsEnvoyVersion semver v.text = true ↔
      (∀ w : Release, m.minEnvoyVersion = w.text → w ≤ v) ∧
        ∀ w : Release, m.maxEnvoyVersion = w.text → v ≤ w := by
  have hlow := @beyond_iff _ _ semver _ h.min v .lt (· ≤ v) fun w => by
    rw [cmp_eq_lt_iff, not_le]
  have hhigh := @beyond_iff _ _ semver _ h.max v .gt (v ≤ ·) fun w => by
    rw [cmp_eq_gt_iff, not_le]
  have hdev : ¬(v.text = "dev" ∨ v.text = "dev-latest") := by simp [Release.text_ne]
  rw [VersionedManifest.supportsEnvoyVersion, if_neg hdev]
  split_ifs with hmin hmax
  · exact iff_of_false (by simp) fun h => hlow.mp hmin h.1
  · exact iff_of_false (by simp) fun h => hhigh.mp hmax h.2
  · exact iff_of_true rfl ⟨not_not.mp (mt hlow.mpr hmin), not_not.mp (mt hhigh.mpr hmax)⟩

/-- The compatible releases are those between the two bounds that are found. -/
theorem exists_interval (h : ∀ m ∈ manifests, m.Bounded) :
    ∃ low high : Release, best semver (·.minEnvoyVersion) .gt "0.0.0" manifests = low.text ∧
      best semver (·.maxEnvoyVersion) .lt "9999.9999.9999" manifests = high.text ∧
      (∀ m ∈ manifests, ∀ w : Release, m.minEnvoyVersion = w.text → w ≤ low) ∧
      ∀ v, Compatible semver manifests v ↔
        low ≤ v ∧ (high ≠ .ofNumbers 9999 9999 9999 → v ≤ high) := by
  have hmax (v w u : Release) : (if cmp v w = .gt then v else w) ≤ u ↔ v ≤ u ∧ w ≤ u := by
    split_ifs with hgt <;> rw [cmp_eq_gt_iff] at hgt
    · exact ⟨fun h => ⟨h, hgt.le.trans h⟩, And.left⟩
    · exact ⟨fun h => ⟨(not_lt.mp hgt).trans h, h⟩, And.right⟩
  have hmin (v w u : Release) : u ≤ (if cmp v w = .lt then v else w) ↔ u ≤ v ∧ u ≤ w := by
    split_ifs with hlt <;> rw [cmp_eq_lt_iff] at hlt
    · exact ⟨fun h => ⟨h, h.trans hlt.le⟩, And.left⟩
    · exact ⟨fun h => ⟨h.trans (not_lt.mp hlt), h⟩, And.right⟩
  obtain ⟨low, hlow, habove⟩ := @exists_best _ _ semver _ _ _ _ hmax (fun m hm => (h m hm).min) ⊥
  obtain ⟨high, hhigh, hbelow⟩ := @exists_best _ _ semver _ _ _ (fun v u => u ≤ v) hmin
    (fun m hm => (h m hm).max) (.ofNumbers 9999 9999 9999)
  refine ⟨low, high, hlow, hhigh, ((habove low).mp le_rfl).2, fun v => ?_⟩
  have hcompatible : Compatible semver manifests v ↔ low ≤ v ∧
      ∀ m ∈ manifests, ∀ w : Release, m.maxEnvoyVersion = w.text → v ≤ w := by
    rw [habove v, and_iff_right bot_le, ← forall₂_and]
    exact forall₂_congr fun m hm => supportsEnvoyVersion_iff (h m hm) v
  rw [hcompatible]
  refine and_congr_right fun _ => ⟨fun hv hne => ?_, fun hv m hm w hw => ?_⟩
  · -- Some manifest has a maximum, and `v` is below it.
    obtain ⟨m, hm, w, hw, hlt⟩ : ∃ m ∈ manifests, ∃ w : Release,
        m.maxEnvoyVersion = w.text ∧ ¬.ofNumbers 9999 9999 9999 ≤ w := by
      by_contra hnone
      push Not at hnone
      exact hne (le_antisymm ((hbelow high).mp le_rfl).1 ((hbelow _).mpr ⟨le_rfl, hnone⟩))
    exact (hbelow v).mpr ⟨(hv m hm w hw).trans (not_le.mp hlt).le, hv⟩
  · have hle : high ≤ w := ((hbelow high).mp le_rfl).2 m hm w hw
    obtain hnone | ⟨w', hw', hlt⟩ := (h m hm).max
    · exact absurd (hnone.symm.trans hw) w.empty_ne_text
    · obtain rfl := Release.text_injective (hw.symm.trans hw')
      exact (hv (hle.trans_lt hlt).ne).trans hle

/-- The version is the smallest one that all manifests support. -/
structure Resolved (semver : Semver α) (manifests : List VersionedManifest)
    (result : Except String String) : Prop where
  fails_iff : (∃ message, result = .error message) ↔ ∀ v, ¬Compatible semver manifests v
  supported : ∀ version, result = .ok version → version ≠ "" →
    ∀ m ∈ manifests, m.supportsEnvoyVersion semver version = true
  least : ∀ version, result = .ok version →
    (∃ m ∈ manifests, ∃ w : Release, m.minEnvoyVersion = w.text ∧ .ofNumbers 0 0 0 < w) →
    ∃ v : Release, version = v.text ∧ IsLeast {v | Compatible semver manifests v} v

/-- A version that is returned is empty or compatible, and not above another one if
some minimum is above the smallest release. -/
theorem Resolved.of_ok {result : Except String String} {version : String} {low v : Release}
    (hresult : result = .ok version) (hv : Compatible semver manifests v)
    (hversion : version = "" ∧ low = ⊥ ∨ version = v.text ∧ (low = ⊥ ∨ v = low))
    (hmins : ∀ m ∈ manifests, ∀ w : Release, m.minEnvoyVersion = w.text → w ≤ low)
    (hlow : ∀ u, Compatible semver manifests u → low ≤ u) : Resolved semver manifests result := by
  subst hresult
  refine ⟨iff_of_false (by simp) fun h => h v hv, fun _ heq hne => ?_, fun _ heq hmin => ?_⟩
  · cases heq
    obtain ⟨rfl, -⟩ | ⟨rfl, -⟩ := hversion
    · exact absurd rfl hne
    · exact hv
  · cases heq
    obtain ⟨m, hm, w, hw, hlt⟩ := hmin
    have hpos : low ≠ ⊥ := (hlt.trans_le (hmins m hm w hw)).ne'
    obtain ⟨-, rfl⟩ | ⟨rfl, rfl | rfl⟩ := hversion
    · exact absurd rfl hpos
    · exact absurd rfl hpos
    · exact ⟨v, rfl, hv, hlow⟩

theorem resolveMinimumCompatibleEnvoyVersion_minimal (semver : Semver α)
    (manifests : List VersionedManifest) (h : ∀ m ∈ manifests, m.Bounded) :
    Resolved semver manifests (resolveMinimumCompatibleEnvoyVersion semver manifests) := by
  obtain ⟨low, high, hlow, hhigh, hmins, hcompatible⟩ := @exists_interval _ _ semver _ h
  have hle (u : Release) (hu : Compatible semver manifests u) : low ≤ u :=
    ((hcompatible u).mp hu).1
  have hmin : highestMinEnvoyVersion semver manifests = if low = ⊥ then "" else low.text := by
    simp only [highestMinEnvoyVersion, hlow]
    exact if_congr (Release.text_injective.eq_iff (b := ⊥)) rfl rfl
  have hmax : lowestMaxEnvoyVersion semver manifests =
      if high = .ofNumbers 9999 9999 9999 then "" else high.text := by
    simp only [lowestMaxEnvoyVersion, hhigh]
    exact if_congr (Release.text_injective.eq_iff (b := .ofNumbers 9999 9999 9999)) rfl rfl
  rw [resolveMinimumCompatibleEnvoyVersion, hmin, hmax]
  by_cases hbot : low = ⊥ <;> by_cases htop : high = .ofNumbers 9999 9999 9999 <;>
    simp only [hbot, htop, if_true, if_false, ne_eq, not_true, false_and, and_false,
      Release.text_ne_empty, not_false_eq_true, true_and, Semver.compare_release]
  · have hv := (hcompatible ⊥).mpr ⟨hbot.le, absurd htop⟩
    exact .of_ok rfl hv (.inl ⟨rfl, hbot⟩) hmins hle
  · have hv := (hcompatible high).mpr ⟨hbot ▸ bot_le, fun _ => le_rfl⟩
    exact .of_ok rfl hv (.inr ⟨rfl, .inl hbot⟩) hmins hle
  · have hv := (hcompatible low).mpr ⟨le_rfl, absurd htop⟩
    exact .of_ok rfl hv (.inr ⟨rfl, .inr rfl⟩) hmins hle
  · split_ifs with hgt <;> rw [cmp_eq_gt_iff] at hgt
    · refine ⟨iff_of_true ⟨_, rfl⟩ fun v hv => ?_, by simp, by simp⟩
      obtain ⟨hlv, hvh⟩ := (hcompatible v).mp hv
      exact hgt.not_ge (hlv.trans (hvh htop))
    · have hv := (hcompatible low).mpr ⟨le_rfl, fun _ => not_lt.mp hgt⟩
      exact .of_ok rfl hv (.inr ⟨rfl, .inr rfl⟩) hmins hle

/-- A manifest for one minor release, with what the loader makes the maximum. -/
def minorRelease : VersionedManifest where
  name := "example"
  version := "1.0.0"
  type := .rust
  minEnvoyVersion := "1.36.0"
  maxEnvoyVersion := "1.37.0"

theorem minorRelease_resolved :
    Resolved Semver.releasesOnly [minorRelease]
      (resolveMinimumCompatibleEnvoyVersion Semver.releasesOnly [minorRelease]) :=
  resolveMinimumCompatibleEnvoyVersion_minimal _ _ (forall_mem_singleton.mpr
    ⟨.inr ⟨.ofNumbers 1 36 0, by decide, by decide⟩,
      .inr ⟨.ofNumbers 1 37 0, by decide, by decide⟩⟩)

end BuiltOnEnvoy.Extensions
