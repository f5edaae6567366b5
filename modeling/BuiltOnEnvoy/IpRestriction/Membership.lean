import BuiltOnEnvoy.IpRestriction.Plugin
import Mathlib

/-!
# Requests are restricted by membership

A client is let through exactly when its address is in the allow list, or is
not in the deny list. The list is the union of its exact addresses and its
blocks, in whatever order the entries are visited.
-/

namespace BuiltOnEnvoy.IpRestriction

open Foundations List
open Option hiding or_assoc

/-- An entry stands for its address, or else for the addresses of its block. -/
def Denotes (lib : Library) (entry : String) (ip : IpAddr) : Prop :=
  IpAddr.parse entry = some ip ∨
    IpAddr.parse entry = none ∧ ∃ net, lib.parseNet entry = some net ∧ net.Covers ip

/-- The address is one of those that the entries stand for. -/
def InUnion (lib : Library) (entries : Finset String) (ip : IpAddr) : Prop :=
  ∃ entry ∈ entries, Denotes lib entry ip

/-- The purpose of the filter. Only one of the lists is set. -/
def Admits (lib : Library) (raw : RawFilterConfig) (ip : IpAddr) : Prop :=
  if raw.denyAddresses = ∅ then InUnion lib raw.allowAddresses ip
  else ¬InUnion lib raw.denyAddresses ip

/-- Every entry of the set is visited. -/
def Library.Visits (lib : Library) : Prop := ∀ entries, (lib.iter entries).toFinset = entries

/-- Another order of the visits. -/
def Library.reordered (lib : Library) (iter : Finset String → List String) : Library :=
  { lib with iter := iter }

/-- The texts for a peer: dotted decimal, or any text of an IPv6 address in brackets. -/
inductive Renders : IpAddr → List Char → Prop
  | v4 (bits : BitVec 32) : Renders (.v4 bits) (IpAddr.dotted bits)
  | v6 {bits : BitVec 128} {text : List Char}
      (h : IpAddr.parse (String.ofList text) = some (.v6 bits)) :
      Renders (.v6 bits) ('[' :: (text ++ [']']))

variable {lib : Library}

theorem matchesAny_iff (ip : IpAddr) (exact : Finset IpAddr) (cidrs : List IpNet) :
    matchesAny lib ip exact cidrs = true ↔ ip ∈ exact ∨ ∃ net ∈ cidrs, net.Covers ip := by
  simp [matchesAny, lib.contains_iff]

theorem matchesAny_addEntry {acc acc' : Finset IpAddr × List IpNet} {entry : String}
    (h : addEntry lib acc entry = some acc') (ip : IpAddr) :
    matchesAny lib ip acc'.1 acc'.2 = true ↔
      matchesAny lib ip acc.1 acc.2 = true ∨ Denotes lib entry ip := by
  simp only [matchesAny_iff, Denotes]
  unfold addEntry at h
  cases hparse : IpAddr.parse entry with
  | some addr =>
    simp only [hparse, Option.some.injEq] at h
    subst h
    simp [or_comm, or_assoc, eq_comm]
  | none =>
    cases hnet : lib.parseNet entry with
    | none => simp [hparse, hnet] at h
    | some net => grind

theorem addEntry_isSome (acc : Finset IpAddr × List IpNet) (entry : String) :
    (addEntry lib acc entry).isSome ↔ IpAddr.parse entry ≠ none ∨ lib.parseNet entry ≠ none := by
  unfold addEntry
  cases IpAddr.parse entry with
  | some addr => simp
  | none => cases lib.parseNet entry <;> simp

theorem matchesAny_foldlM {entries : List String} {acc acc' : Finset IpAddr × List IpNet}
    (h : entries.foldlM (addEntry lib) acc = some acc') (ip : IpAddr) :
    matchesAny lib ip acc'.1 acc'.2 = true ↔
      matchesAny lib ip acc.1 acc.2 = true ∨ ∃ entry ∈ entries, Denotes lib entry ip := by
  induction entries generalizing acc with
  | nil =>
    cases h
    simp
  | cons entry entries ih =>
    rw [foldlM_cons] at h
    obtain ⟨acc₁, hentry, hrest⟩ := bind_eq_some_iff.mp h
    rw [ih hrest, matchesAny_addEntry hentry, exists_mem_cons_iff, or_assoc]

theorem foldlM_addEntry_isSome (entries : List String) (acc : Finset IpAddr × List IpNet) :
    (entries.foldlM (addEntry lib) acc).isSome ↔
      ∀ entry ∈ entries, IpAddr.parse entry ≠ none ∨ lib.parseNet entry ≠ none := by
  induction entries generalizing acc with
  | nil => simp
  | cons entry entries ih =>
    rw [foldlM_cons, forall_mem_cons, ← @addEntry_isSome lib acc]
    cases haccepted : addEntry lib acc entry with
    | none => simp
    | some acc₁ => simp [ih]

section

variable (hvisits : lib.Visits) {entries : Finset String}

include hvisits

theorem Library.Visits.mem_iter (entry : String) : entry ∈ lib.iter entries ↔ entry ∈ entries := by
  rw [← List.mem_toFinset, hvisits]

theorem parseEntries_isSome :
    (parseEntries lib entries).isSome ↔
      ∀ entry ∈ entries, IpAddr.parse entry ≠ none ∨ lib.parseNet entry ≠ none := by
  simp only [parseEntries, foldlM_addEntry_isSome, hvisits.mem_iter]

variable {acc : Finset IpAddr × List IpNet} (h : parseEntries lib entries = some acc)

include h

theorem matchesAny_parseEntries (ip : IpAddr) :
    matchesAny lib ip acc.1 acc.2 = true ↔ InUnion lib entries ip := by
  rw [matchesAny_foldlM h, InUnion]
  simp [matchesAny, hvisits.mem_iter]

/-- What is collected is empty for the empty list only: every entry stands for
some address. -/
theorem parseEntries_ne_empty : (acc.1 ≠ ∅ ∨ acc.2 ≠ []) ↔ entries ≠ ∅ := by
  constructor
  · rintro hacc rfl
    have hiter : lib.iter ∅ = [] := (toFinset_eq_empty_iff _).mp (hvisits ∅)
    rw [parseEntries, hiter] at h
    cases h
    simp at hacc
  · intro hentries
    obtain ⟨entry, hentry⟩ := Finset.nonempty_iff_ne_empty.mpr hentries
    have haccepted := (parseEntries_isSome hvisits).mp (by rw [h]; rfl) entry hentry
    have hdenotes : ∃ ip, Denotes lib entry ip := by
      cases hparse : IpAddr.parse entry with
      | some ip => exact ⟨ip, Or.inl hparse⟩
      | none =>
        obtain ⟨net, hnet⟩ := ne_none_iff_exists'.mp
          (haccepted.resolve_left (not_not.mpr hparse))
        exact ⟨net.addr, Or.inr ⟨hparse, net, hnet, rfl, rfl⟩⟩
    obtain ⟨ip, hip⟩ := hdenotes
    have hmatches := (matchesAny_parseEntries hvisits h ip).mpr ⟨entry, hentry, hip⟩
    rcases (matchesAny_iff ip acc.1 acc.2).mp hmatches with hexact | ⟨net, hnet, -⟩
    · exact Or.inl (Finset.ne_empty_of_mem hexact)
    · exact Or.inr (ne_nil_of_mem hnet)

end

theorem slice_full (front back : List Char) :
    slice (front ++ back) 0 front.length = some front := by
  simp [slice]

theorem stripPort_rendered (text : List Char) (port : ℤ) :
    stripPort (text ++ ':' :: (toString port).toList) port = some text := by
  have hlength : (text ++ ':' :: (toString port).toList).length =
      text.length + ((toString port).length + 1) := by
    rw [length_append, length_cons, String.length_toList]
  simp only [stripPort, hlength]
  rw [if_neg (by omega), show text.length + ((toString port).length + 1) -
    (toString port).length - 1 = text.length by omega, slice_full]

theorem stripBrackets_v6 (text : List Char) :
    stripBrackets ('[' :: (text ++ [']'])) = some text := by
  have hends : ('[' :: (text ++ [']'])).head? = some '[' ∧
      ('[' :: (text ++ [']'])).getLast? = some ']' := by
    constructor
    · rfl
    · rw [← cons_append, getLast?_append]
      rfl
  rw [stripBrackets, if_pos hends, slice, if_pos (by simp)]
  simp

theorem stripBrackets_v4 (bits : BitVec 32) :
    stripBrackets (IpAddr.dotted bits) = some (IpAddr.dotted bits) := by
  rw [stripBrackets, if_neg]
  have hdigit : ∀ d < 10, Nat.digitChar d ≠ '[' := by decide
  rintro ⟨hhead, -⟩
  rw [IpAddr.dotted, IpAddr.toDigits_octet _ (Nat.mod_lt _ (by norm_num))] at hhead
  split_ifs at hhead with h10 h100
  · exact hdigit _ h10 (Option.some.inj hhead)
  · exact hdigit _ (by omega) (Option.some.inj hhead)
  · exact hdigit _ (by omega) (Option.some.inj hhead)

theorem onRequestHeaders_rendered (lib : Library) (cfg : FilterConfigImpl) {ip : IpAddr}
    {text : List Char} (htext : Renders ip text) (port : ℤ) :
    onRequestHeaders lib cfg (some (text ++ ':' :: (toString port).toList)) (some port) =
      some (checkAddress lib cfg ip) := by
  rw [onRequestHeaders]
  simp only [stripPort_rendered]
  cases htext with
  | v4 bits => simp only [stripBrackets_v4, IpAddr.parse_dotted]
  | v6 h => simp only [stripBrackets_v6, h]

variable {filterConfig : String} {raw : RawFilterConfig} {cfg : FilterConfigImpl}

theorem newFilterConfig_eq_some (hraw : lib.fromStr filterConfig = some raw)
    (h : newFilterConfig lib filterConfig = some cfg) :
    ¬(raw.denyAddresses = ∅ ↔ raw.allowAddresses = ∅) ∧
      parseEntries lib raw.allowAddresses =
        some (cfg.allowAddressesExact, cfg.allowAddressesCidr) ∧
      parseEntries lib raw.denyAddresses =
        some (cfg.denyAddressesExact, cfg.denyAddressesCidr) := by
  rw [newFilterConfig, hraw] at h
  dsimp only at h
  split_ifs at h with hone
  refine ⟨hone, ?_⟩
  cases hallow : parseEntries lib raw.allowAddresses with
  | none => simp [hallow] at h
  | some allow =>
    cases hdeny : parseEntries lib raw.denyAddresses with
    | none => simp [hallow, hdeny] at h
    | some deny =>
      simp only [hallow, hdeny, Option.some.injEq] at h
      subst h
      exact ⟨rfl, rfl⟩

theorem checkAddress_eq (lib : Library) (cfg : FilterConfigImpl) (ip : IpAddr) :
    checkAddress lib cfg ip = .continue ∨ checkAddress lib cfg ip = forbidden := by
  unfold checkAddress
  split_ifs
  · exact Or.inr rfl
  · exact Or.inr rfl
  · exact Or.inl rfl

theorem checkAddress_continue_iff (cfg : FilterConfigImpl) (ip : IpAddr) :
    checkAddress lib cfg ip = .continue ↔
      ((cfg.allowAddressesExact ≠ ∅ ∨ cfg.allowAddressesCidr ≠ []) →
          matchesAny lib ip cfg.allowAddressesExact cfg.allowAddressesCidr = true) ∧
        ¬matchesAny lib ip cfg.denyAddressesExact cfg.denyAddressesCidr = true := by
  have hne : forbidden ≠ Reply.continue := nofun
  unfold checkAddress
  split_ifs with hallow hdeny
  · exact iff_of_false hne fun h => hallow.2 (h.1 hallow.1)
  · exact iff_of_false hne fun h => h.2 hdeny
  · exact iff_of_true rfl ⟨fun hset => by_contra fun hnot => hallow ⟨hset, hnot⟩, hdeny⟩

/-- A configuration that is accepted lets through the addresses it should. -/
theorem checkAddress_admits (hvisits : lib.Visits) (hraw : lib.fromStr filterConfig = some raw)
    (h : newFilterConfig lib filterConfig = some cfg) (ip : IpAddr) :
    checkAddress lib cfg ip = .continue ↔ Admits lib raw ip := by
  obtain ⟨hone, hallow, hdeny⟩ := newFilterConfig_eq_some hraw h
  have hset := parseEntries_ne_empty hvisits hallow
  have hempty : ∀ ip, ¬InUnion lib ∅ ip := by simp [InUnion]
  rw [checkAddress_continue_iff, hset, matchesAny_parseEntries hvisits hallow,
    matchesAny_parseEntries hvisits hdeny, Admits]
  by_cases hnone : raw.denyAddresses = ∅
  · grind
  · grind

/-- A configuration is accepted when one list is set and its entries are all
addresses or blocks. -/
theorem newFilterConfig_isSome (hvisits : lib.Visits) (hraw : lib.fromStr filterConfig = some raw) :
    (newFilterConfig lib filterConfig).isSome ↔
      ¬(raw.denyAddresses = ∅ ↔ raw.allowAddresses = ∅) ∧
        ∀ entry ∈ raw.allowAddresses ∪ raw.denyAddresses,
          IpAddr.parse entry ≠ none ∨ lib.parseNet entry ≠ none := by
  rw [newFilterConfig, hraw]
  dsimp only
  simp only [Finset.forall_mem_union, ← parseEntries_isSome hvisits]
  by_cases hone : raw.denyAddresses = ∅ ↔ raw.allowAddresses = ∅
  · simp [hone]
  · rw [if_neg hone]
    cases parseEntries lib raw.allowAddresses with
    | none => simp
    | some allow => cases parseEntries lib raw.denyAddresses <;> simp [hone]

theorem newFilterConfig_reordered (hvisits : lib.Visits) {iter : Finset String → List String}
    (hiter : (lib.reordered iter).Visits) (hraw : lib.fromStr filterConfig = some raw)
    (h : newFilterConfig lib filterConfig = some cfg) :
    ∃ cfg', newFilterConfig (lib.reordered iter) filterConfig = some cfg' := by
  have hraw' : (lib.reordered iter).fromStr filterConfig = some raw := hraw
  have haccepted := (newFilterConfig_isSome hvisits hraw).mp (by rw [h]; rfl)
  exact isSome_iff_exists.mp ((newFilterConfig_isSome hiter hraw').mpr haccepted)

/-- A request continues exactly when its address is in the allow list, or is not
in the deny list, whatever its port is and in whatever order the lists are
visited. No slice is out of range. -/
theorem request_restricted (lib : Library) (hvisits : lib.Visits) (filterConfig : String)
    (raw : RawFilterConfig) (hraw : lib.fromStr filterConfig = some raw) (cfg : FilterConfigImpl)
    (haccepted : newFilterConfig lib filterConfig = some cfg) (ip : IpAddr) (text : List Char)
    (htext : Renders ip text) (port : ℤ) :
    ∃ reply,
      onRequestHeaders lib cfg (some (text ++ ':' :: (toString port).toList)) (some port) =
        some reply ∧
      (reply = .continue ↔ Admits lib raw ip) ∧ (reply = .continue ∨ reply = forbidden) ∧
      ∀ iter, (lib.reordered iter).Visits →
        ∃ cfg', newFilterConfig (lib.reordered iter) filterConfig = some cfg' ∧
          onRequestHeaders (lib.reordered iter) cfg'
            (some (text ++ ':' :: (toString port).toList)) (some port) = some reply := by
  refine ⟨checkAddress lib cfg ip, onRequestHeaders_rendered lib cfg htext port,
    checkAddress_admits hvisits hraw haccepted ip, checkAddress_eq lib cfg ip, fun iter hiter => ?_⟩
  obtain ⟨cfg', hcfg'⟩ := newFilterConfig_reordered hvisits hiter hraw haccepted
  refine ⟨cfg', hcfg', ?_⟩
  have hraw' : (lib.reordered iter).fromStr filterConfig = some raw := hraw
  have hsame : checkAddress (lib.reordered iter) cfg' ip = .continue ↔
      checkAddress lib cfg ip = .continue := by
    rw [checkAddress_admits hiter hraw' hcfg', checkAddress_admits hvisits hraw haccepted]
    rfl
  rw [onRequestHeaders_rendered (lib.reordered iter) cfg' htext port]
  rcases checkAddress_eq lib cfg ip with hcontinue | hforbidden
  · rw [hcontinue, hsame.mpr hcontinue]
  · rcases checkAddress_eq (lib.reordered iter) cfg' ip with hcontinue' | hforbidden'
    · rw [hcontinue', hsame.mp hcontinue']
    · rw [hforbidden, hforbidden']

/-- An allow list with the block `10.0.0.0/8` and the address `::1`. -/
def sampleConfig : RawFilterConfig := ⟨∅, {"10.0.0.0/8", "::1"}⟩

def sampleText : String := "\x7b\"allow_addresses\": [\"10.0.0.0/8\", \"::1\"]\x7d"

def sampleLibrary : Library where
  fromStr text := if text = sampleText then some sampleConfig else none
  parseNet entry :=
    if entry = "10.0.0.0/8" then some ⟨.v4 (BitVec.ofNat 32 (10 * 2 ^ 24)), 8⟩ else none
  contains net ip := net.Covers ip
  iter entries := entries.sort
  contains_iff net ip := decide_eq_true_iff

/-- A client inside the block and one at the address are let through. -/
theorem request_restricted_sample :
    sampleLibrary.Visits ∧
      ∃ cfg, newFilterConfig sampleLibrary sampleText = some cfg ∧
        onRequestHeaders sampleLibrary cfg (some "10.1.2.3:80".toList) (some 80) = some .continue ∧
        onRequestHeaders sampleLibrary cfg (some "[0:0::1]:65535".toList) (some 65535) =
          some .continue := by
  have hvisits : sampleLibrary.Visits := fun entries => entries.sort_toFinset (· ≤ ·)
  have hraw : sampleLibrary.fromStr sampleText = some sampleConfig := rfl
  obtain ⟨cfg, hcfg⟩ := isSome_iff_exists.mp
    ((newFilterConfig_isSome hvisits hraw).mpr ⟨by decide, by decide⟩)
  have hnone : sampleConfig.denyAddresses = ∅ := rfl
  have hadmits : ∀ {ip}, InUnion sampleLibrary sampleConfig.allowAddresses ip →
      Admits sampleLibrary sampleConfig ip := fun h => by rwa [Admits, if_pos hnone]
  refine ⟨hvisits, cfg, hcfg, ?_, ?_⟩
  · obtain ⟨reply, hreply, hiff, -⟩ := request_restricted sampleLibrary hvisits sampleText _ hraw
      cfg hcfg _ _ (.v4 (BitVec.ofNat 32 (10 * 2 ^ 24 + 1 * 2 ^ 16 + 2 * 2 ^ 8 + 3))) 80
    rw [hiff.mpr (hadmits ⟨"10.0.0.0/8", by decide,
      Or.inr ⟨by decide, _, rfl, rfl, by decide⟩⟩)] at hreply
    exact hreply
  · obtain ⟨reply, hreply, hiff, -⟩ := request_restricted sampleLibrary hvisits sampleText _ hraw
      cfg hcfg _ _ (@Renders.v6 1 "0:0::1".toList (by decide)) 65535
    rw [hiff.mpr (hadmits ⟨"::1", by decide, Or.inl (by decide)⟩)] at hreply
    exact hreply

end BuiltOnEnvoy.IpRestriction
