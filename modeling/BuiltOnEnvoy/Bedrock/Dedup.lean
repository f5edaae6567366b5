import Mathlib.Data.List.Basic
import BuiltOnEnvoy.Foundations.Fallible
import BuiltOnEnvoy.Bedrock.Guardrails

/-!
# Deduplication of the configured guardrails

`parseConfig` of the guardrails filter drops the guardrails that were configured
before. Two of them count as one when their identifier and version, joined by a
number sign, are the same text, which does not tell every two pairs apart.
-/

namespace BuiltOnEnvoy.Bedrock

open Foundations List

/-- The text that `dedupGuardrails` compares guardrails by. -/
def Guardrail.key (g : Guardrail) : String := g.identifier ++ "#" ++ g.version

/-- The loop of `dedupGuardrails`, with the keys that were met so far. -/
def dedupLoop (allKeys : List String) : List Guardrail → List Guardrail
  | [] => []
  | g :: rest =>
    if g.key ∈ allKeys then dedupLoop allKeys rest
    else g :: dedupLoop (g.key :: allKeys) rest

def dedupGuardrails (guardrails : List Guardrail) : List Guardrail := dedupLoop [] guardrails

def defaultConfig : GuardrailsConfig := ⟨"", "", "", [], 1000 * 10⟩

/-- `json.Unmarshal` overwrites the fields of the value it is given. -/
def parseConfig (unmarshal : Bytes → GuardrailsConfig → Except String GuardrailsConfig)
    (config : Bytes) : Except String GuardrailsConfig := do
  let cfg ←
    if config.length > 0 then
      (unmarshal config defaultConfig).mapError ("failed to parse config: " ++ ·)
    else pure defaultConfig
  return { cfg with bedrockGuardrails := dedupGuardrails cfg.bedrockGuardrails }

/-- What the deduplication is for: `list` has the guardrails of `guardrails` and no others,
each of them once, in the order in which they first stand there. -/
structure KeepsDistinct (guardrails list : List Guardrail) : Prop where
  mem_iff : ∀ g, g ∈ list ↔ g ∈ guardrails
  nodup : list.Nodup
  ordered : list.Pairwise fun g h => guardrails.idxOf g < guardrails.idxOf h

theorem mem_of_mem_dedupLoop {g : Guardrail} {guardrails : List Guardrail} :
    ∀ {allKeys}, g ∈ dedupLoop allKeys guardrails → g ∈ guardrails ∧ g.key ∉ allKeys := by
  induction guardrails with
  | nil => simp [dedupLoop]
  | cons h rest ih =>
    intro allKeys hg
    rw [dedupLoop] at hg
    split_ifs at hg with hkey
    · exact ⟨mem_cons_of_mem _ (ih hg).1, (ih hg).2⟩
    · rcases mem_cons.mp hg with rfl | hrest
      · exact ⟨mem_cons_self, hkey⟩
      · have hnew := (ih hrest).2
        exact ⟨mem_cons_of_mem _ (ih hrest).1, fun hold => hnew (mem_cons_of_mem _ hold)⟩

/-- A guardrail whose key is new is represented by one with the same key. -/
theorem exists_mem_dedupLoop {g : Guardrail} {guardrails : List Guardrail} :
    ∀ {allKeys}, g ∈ guardrails → g.key ∉ allKeys →
      ∃ h ∈ dedupLoop allKeys guardrails, h.key = g.key := by
  induction guardrails with
  | nil => simp
  | cons h rest ih =>
    intro allKeys hg hnew
    rw [dedupLoop]
    split_ifs with hkey
    · rcases mem_cons.mp hg with rfl | hrest
      · exact absurd hkey hnew
      · exact ih hrest hnew
    · by_cases hsame : h.key = g.key
      · exact ⟨h, mem_cons_self, hsame⟩
      · have hrest : g ∈ rest := by
          rcases mem_cons.mp hg with rfl | hrest
          · exact absurd rfl hsame
          · exact hrest
        obtain ⟨k, hk, hkkey⟩ := @ih (h.key :: allKeys) hrest (by simp [Ne.symm hsame, hnew])
        exact ⟨k, mem_cons_of_mem _ hk, hkkey⟩

/-- Kept guardrails have different keys and stand in the order of their first occurrence: a
guardrail that is dropped has the key of an earlier one, so it is none of those kept later. -/
theorem pairwise_dedupLoop (guardrails : List Guardrail) :
    ∀ allKeys, (dedupLoop allKeys guardrails).Pairwise fun g h =>
      g.key ≠ h.key ∧ guardrails.idxOf g < guardrails.idxOf h := by
  induction guardrails with
  | nil => simp [dedupLoop]
  | cons a rest ih =>
    intro allKeys
    -- past the head, every index is one more than in the rest
    have hshift : ∀ keys, a.key ∈ keys → (dedupLoop keys rest).Pairwise fun g h =>
        g.key ≠ h.key ∧ (a :: rest).idxOf g < (a :: rest).idxOf h := by
      intro keys ha
      have hne : ∀ g ∈ dedupLoop keys rest, a ≠ g := by
        rintro g hg rfl
        exact (mem_of_mem_dedupLoop hg).2 ha
      refine (ih keys).imp_of_mem fun hg hh hpair => ⟨hpair.1, ?_⟩
      rw [idxOf_cons_ne _ (hne _ hg), idxOf_cons_ne _ (hne _ hh)]
      omega
    rw [dedupLoop]
    split_ifs with hkey
    · exact hshift allKeys hkey
    · refine pairwise_cons.mpr ⟨fun h hh => ?_, hshift _ mem_cons_self⟩
      have hnew : a.key ≠ h.key := fun hsame =>
        (mem_of_mem_dedupLoop hh).2 (hsame ▸ mem_cons_self)
      have hne : a ≠ h := fun hsame => hnew (congrArg Guardrail.key hsame)
      refine ⟨hnew, ?_⟩
      rw [idxOf_cons_self, idxOf_cons_ne _ hne]
      omega

/-- The deduplication keeps every distinct guardrail exactly when no two different ones of the
list are joined to the same text. -/
theorem dedupGuardrails_keepsDistinct_iff (guardrails : List Guardrail) :
    KeepsDistinct guardrails (dedupGuardrails guardrails) ↔
      ∀ g ∈ guardrails, ∀ h ∈ guardrails,
        g.identifier ++ "#" ++ g.version = h.identifier ++ "#" ++ h.version → g = h := by
  have hpairs := pairwise_dedupLoop guardrails []
  have hdistinct : ((dedupGuardrails guardrails).map Guardrail.key).Nodup :=
    pairwise_map.mpr (hpairs.imp And.left)
  constructor
  · intro hkept g hg h hh hkey
    exact inj_on_of_nodup_map hdistinct ((hkept.mem_iff g).mpr hg)
      ((hkept.mem_iff h).mpr hh) hkey
  · intro hkeys
    refine ⟨fun g => ⟨fun hg => (mem_of_mem_dedupLoop hg).1, fun hg => ?_⟩,
      hdistinct.of_map _, hpairs.imp And.right⟩
    obtain ⟨h, hh, hkey⟩ := exists_mem_dedupLoop hg (not_mem_nil (a := g.key))
    rwa [← hkeys h (mem_of_mem_dedupLoop hh).1 g hg hkey]

/-- Version `c` of the guardrail `a#b` hides version `b#c` of the guardrail `a`. -/
theorem dedupGuardrails_drops_distinct :
    ¬ KeepsDistinct [⟨"a#b", "c"⟩, ⟨"a", "b#c"⟩]
      (dedupGuardrails [⟨"a#b", "c"⟩, ⟨"a", "b#c"⟩]) := by
  intro hkept
  have hmem := (hkept.mem_iff ⟨"a", "b#c"⟩).mpr (by decide)
  revert hmem
  decide

/-- The guardrails of an accepted configuration are the deduplicated decoded ones. -/
theorem parseConfig_guardrails
    {unmarshal : Bytes → GuardrailsConfig → Except String GuardrailsConfig} {config : Bytes}
    {cfg : GuardrailsConfig} (h : parseConfig unmarshal config = .ok cfg) :
    ∃ raw, (config = [] ∧ raw = defaultConfig ∨ unmarshal config defaultConfig = .ok raw) ∧
      cfg = { raw with bedrockGuardrails := dedupGuardrails raw.bedrockGuardrails } := by
  unfold parseConfig at h
  split_ifs at h with hlen
  · obtain ⟨raw, hraw, hcfg⟩ := bind_eq_ok h
    cases hcfg
    exact ⟨raw, .inr (mapError_eq_ok.mp hraw), rfl⟩
  · cases h
    exact ⟨defaultConfig, .inl ⟨by simpa using hlen, rfl⟩, rfl⟩

end BuiltOnEnvoy.Bedrock
