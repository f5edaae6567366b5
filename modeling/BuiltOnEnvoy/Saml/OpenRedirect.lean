import BuiltOnEnvoy.Foundations.BrowserUrl
import BuiltOnEnvoy.Saml.RelayState

/-!
# Where a login can redirect to

The relay state is checked with the URL syntax of the standard library, and a
browser follows it with its own. The two agree on URLs with a scheme and a host;
a target that starts with one slash is not read by the standard library at all.
-/

namespace BuiltOnEnvoy.Saml

open Foundations

section

variable {H : Type} (b : BrowserHosts H) (service : Service H)

/-- The origin of the service or of the entity. -/
def AtHome (entityID : String) (o : Origin H) : Prop :=
  o = service.origin ∨ resolve b service entityID.toList = some o

/-- A browser that follows the location from a page of the service stays at home. -/
def StaysHome (entityID location : String) : Prop :=
  ∀ o, resolve b service location.toList = some o → AtHome b service entityID o

/-- A relative target for the check. -/
def Rooted (target : String) : Prop :=
  "/".toList.isPrefixOf target.toList ∧ ¬"//".toList.isPrefixOf target.toList

instance (target : String) : Decidable (Rooted target) :=
  inferInstanceAs (Decidable (_ ∧ _))

/-- The host is spelled in ASCII and without escapes. -/
def PlainHost (url : String) : Prop := (hostTextOf url.toList).all isPlainHostChar = true

theorem resolve_rooted {target : String} (h : Rooted target) :
    resolve b service target.toList = resolveRelative b service (cleaned target.toList) := by
  obtain ⟨rest, hrest⟩ := List.isPrefixOf_iff_prefix.mp h.1
  have htarget : target.toList = '/' :: rest := hrest.symm
  rw [htarget, resolve_slash]

/-- A rooted target leaves home only through an authority that the browser finds in it. -/
theorem staysHome_rooted_iff (entityID : String) {target : String} (h : Rooted target) :
    StaysHome b service entityID target ↔
      ∀ authority, slashedAuthority (cleaned target.toList) = some authority →
        ∀ o, authorityOrigin b service.scheme authority = some o →
          AtHome b service entityID o := by
  rw [StaysHome, resolve_rooted b service h, resolveRelative]
  cases slashedAuthority (cleaned target.toList) with
  | none =>
    constructor
    · intro _ authority hnone
      cases hnone
    · rintro - o ho
      exact .inl (Option.some.inj ho).symm
  | some authority =>
    constructor
    · rintro h _ ⟨⟩ o ho
      exact h o ho
    · intro h o ho
      exact h authority rfl o ho

end

/-- The check of a target that is not rooted compares the schemes and the hosts. -/
theorem parse_of_isSafeRedirectURL {hosts : HostSyntax} {authn : AuthnLibrary} {lib : Library}
    {target entityID : String} {u : GoUrl} (hentity : GoUrl.parse hosts entityID.toList = some u)
    (hrooted : ¬Rooted target)
    (h : isSafeRedirectURL (goLibrary hosts authn lib) target entityID = true) :
    ∃ v, GoUrl.parse hosts target.toList = some v ∧
      lib.folding.equalFold (String.ofList v.scheme) (String.ofList u.scheme) = true ∧
      lib.folding.equalFold (String.ofList v.host) (String.ofList u.host) = true := by
  rw [Rooted] at hrooted
  rw [isSafeRedirectURL, if_neg hrooted, urlParse_goLibrary, urlParse_goLibrary, hentity] at h
  cases hparse : GoUrl.parse hosts target.toList with
  | none =>
    rw [hparse] at h
    cases h
  | some v =>
    rw [hparse] at h
    exact ⟨v, rfl, Bool.and_eq_true_iff.mp h⟩

section

variable {hosts : HostSyntax} {f : CaseFolding} {u v : GoUrl}

theorem ascii_of_schemeWord {word : List Char} (h : SchemeWord word) :
    ∀ c ∈ (String.ofList word).toList, c.toNat < 128 := by
  rw [String.toList_ofList]
  intro c hc
  have hrange := toNat_of_alphanumOr (by decide) (h.chars c hc)
  omega

theorem ofList_ne_empty {text : List Char} (h : text ≠ []) : String.ofList text ≠ "" := by
  intro hempty
  have hnil := congrArg String.toList hempty
  rw [String.toList_ofList] at hnil
  exact h hnil

variable {text other : List Char}

theorem ne_nil_of_equalFold (h : f.equalFold (String.ofList text) (String.ofList other) = true)
    (hother : other ≠ []) :
    text ≠ [] := by
  rintro rfl
  rw [CaseFolding.equalFold, decide_eq_true_eq] at h
  have hnil : runes (String.ofList other) = [] := by
    rw [← List.map_eq_nil_iff (f := f.fold), ← h]
    rfl
  exact ofList_ne_empty hother (runes_eq_nil_iff.mp hnil)

theorem scheme_eq_of_equalFold (hu : GoUrl.parse hosts text = some u)
    (hv : GoUrl.parse hosts other = some v) (hscheme : u.scheme ≠ [])
    (h : f.equalFold (String.ofList v.scheme) (String.ofList u.scheme) = true) :
    v.scheme = u.scheme := by
  have hvscheme := ne_nil_of_equalFold h hscheme
  obtain ⟨huword, hulower⟩ := scheme_of_parse hu hscheme
  obtain ⟨hvword, hvlower⟩ := scheme_of_parse hv hvscheme
  have hsame := f.sameUpToCase_of_equalFold (ascii_of_schemeWord hvword)
    (ascii_of_schemeWord huword) h
  rw [String.toList_ofList, String.toList_ofList, SameUpToCase, hulower, hvlower] at hsame
  exact hsame

theorem host_of_plain {text host : List Char} (h : hosts.parse text = some host)
    (hplain : text.all isPlainHostChar = true) : host = text := by
  have hpercent : '%' ∉ text := fun hmem =>
    absurd (List.all_eq_true.mp hplain '%' hmem) (by decide)
  have hdecoded := (hosts.parse_eq_some h).2
  rw [pathUnescape_of_notMem hpercent] at hdecoded
  exact (Option.some.inj hdecoded).symm

theorem sameUpToCase_of_plain (htext : text.all isPlainHostChar = true)
    (hother : other.all isPlainHostChar = true)
    (h : f.equalFold (String.ofList text) (String.ofList other) = true) :
    SameUpToCase text other := by
  have hascii : ∀ text : List Char, text.all isPlainHostChar = true →
      ∀ c ∈ (String.ofList text).toList, c.toNat < 128 := by
    intro text hplain c hc
    rw [String.toList_ofList] at hc
    have hchar := List.all_eq_true.mp hplain c hc
    rw [isPlainHostChar, Bool.and_eq_true, decide_eq_true_eq] at hchar
    exact hchar.1
  have hsame := f.sameUpToCase_of_equalFold (hascii text htext) (hascii other hother) h
  rwa [String.toList_ofList, String.toList_ofList] at hsame

end

/-- An accepted target keeps the browser at home exactly when, after the clean-up of the
browser, it does not start with two slashes of either kind, or what follows these is at home.
Targets with a scheme and a host are at home, as far as the two hosts are in plain ASCII. -/
theorem staysHome_iff {H : Type} (b : BrowserHosts H) (service : Service H) (hosts : HostSyntax)
    (authn : AuthnLibrary) (lib : Library) {entityID target : String} {u : GoUrl}
    (hentity : GoUrl.parse hosts entityID.toList = some u)
    (hscheme : u.scheme = "http".toList ∨ u.scheme = "https".toList) (hhost : u.host ≠ [])
    (hsafe : isSafeRedirectURL (goLibrary hosts authn lib) target entityID = true) :
    StaysHome b service entityID target ↔
      if Rooted target then
        ∀ authority, slashedAuthority (cleaned target.toList) = some authority →
          ∀ o, authorityOrigin b service.scheme authority = some o → AtHome b service entityID o
      else PlainHost target ∧ PlainHost entityID ∨
        ∀ o, hostOrigin b u.scheme (hostTextOf target.toList) = some o →
          AtHome b service entityID o := by
  by_cases hrooted : Rooted target
  · rw [if_pos hrooted]
    exact staysHome_rooted_iff b service entityID hrooted
  rw [if_neg hrooted]
  obtain ⟨v, htarget, hfoldScheme, hfoldHost⟩ := parse_of_isSafeRedirectURL hentity hrooted hsafe
  have hsome : u.scheme ≠ [] := by
    rcases hscheme with hscheme | hscheme <;> rw [hscheme] <;> decide
  have hsame : v.scheme = u.scheme := scheme_eq_of_equalFold hentity htarget hsome hfoldScheme
  have hvhost : v.host ≠ [] := ne_nil_of_equalFold hfoldHost hhost
  obtain ⟨huparse, huresolve⟩ :=
    resolve_spelled b service (spelled_of_parse hentity hsome hhost) hscheme hhost
  obtain ⟨hvparse, hvresolve⟩ := resolve_spelled b service
    (spelled_of_parse htarget (hsame ▸ hsome) hvhost) (hsame ▸ hscheme) hvhost
  rw [hsame] at hvresolve
  rw [StaysHome, hvresolve]
  constructor
  · exact .inr
  · rintro (⟨hplain, hplain'⟩ | hhome)
    · intro o ho
      rw [host_of_plain hvparse hplain, host_of_plain huparse hplain'] at hfoldHost
      have hcase := sameUpToCase_of_plain hplain hplain' hfoldHost
      rw [hostOrigin_sameUpToCase b u.scheme hplain hplain' hcase, ← huresolve] at ho
      exact .inr ho
    · exact hhome

/-- Domains without tables: every text is one, in lower case. -/
def plainBrowser : BrowserHosts (List Char) where
  domain text := some (text.map Char.toLower)
  ipv6 _ := none
  domain_lower text := by
    rw [List.map_map]
    exact congrArg some (List.map_congr_left fun c _ => toLower_toLower c)
  ipv6_lower _ := rfl

def spService : Service (List Char) := ⟨"https".toList, "sp".toList, none, .inr rfl⟩

/-- The backslash is a part of a path for the check, and a slash for the browser. -/
theorem backslash_leavesHome :
    isSafeRedirectURL (goLibrary plainHosts sampleAuthn (loginLibrary "/\\evil.com"))
        "/\\evil.com" roleConfig.entityID = true ∧
      resolve plainBrowser spService "/\\evil.com".toList =
        some (.tuple "https".toList "evil.com".toList none) ∧
      ¬StaysHome plainBrowser spService roleConfig.entityID "/\\evil.com" := by
  have hresolve : resolve plainBrowser spService "/\\evil.com".toList =
      some (.tuple "https".toList "evil.com".toList none) := rfl
  refine ⟨rfl, hresolve, fun h => ?_⟩
  have hentity : resolve plainBrowser spService roleConfig.entityID.toList =
      some spService.origin := rfl
  rcases h _ hresolve with hhome | hhome
  · cases hhome
  · rw [hentity] at hhome
    cases hhome

theorem page_staysHome : StaysHome plainBrowser spService roleConfig.entityID "/app\\page" := by
  have hnone : slashedAuthority (cleaned "/app\\page".toList) = none := rfl
  refine (staysHome_iff plainBrowser spService plainHosts sampleAuthn (loginLibrary "/app\\page")
    sample_entity (.inr rfl) (by decide) rfl).mpr ?_
  rw [if_pos (by decide), hnone]
  rintro authority ⟨⟩

end BuiltOnEnvoy.Saml
