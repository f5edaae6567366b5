import BuiltOnEnvoy.Foundations.LetterCase
import BuiltOnEnvoy.Dns.Injectivity

/-!
# The case of queried names

DNS names that differ in the case of letters only are the same name, but the
patterns of the gateway are compared as texts. Which pattern owns a name is
independent of its case exactly when no pattern that owns a name has a letter.
-/

namespace BuiltOnEnvoy.Dns

open Foundations List

theorem matchesDomain_exact {pattern domain : String} (hstar : pattern ≠ "*")
    (hexact : pattern.toList.dropPrefix? ['*', '.'] = none) :
    matchesDomain pattern domain = true ↔ domain = pattern := by
  simp [matchesDomain, hstar, hexact]

theorem matchesDomain_wildcard {pattern domain : String} {base : List Char}
    (hbase : pattern.toList.dropPrefix? ['*', '.'] = some base) :
    matchesDomain pattern domain = true ↔
      ∃ label, domain.toList = label ++ '.' :: base ∧ label ≠ [] ∧ '.' ∉ label := by
  have hstar : pattern ≠ "*" := by
    rintro rfl
    simp [List.dropPrefix?] at hbase
  simp only [matchesDomain, hstar, if_false, hbase]
  constructor
  · intro h
    split at h
    · cases h
    · next front hfront =>
      split at h
      · cases h
      · next label hlabel =>
        obtain ⟨_, hdomain, hsuffix⟩ := dropSuffix?_eq_some_iff.mp hfront
        obtain ⟨_, hdot, hdot'⟩ := dropSuffix?_eq_some_iff.mp hlabel
        rw [beq_iff_eq] at hsuffix hdot'
        subst hsuffix hdot'
        refine ⟨label, by simp [hdomain, hdot], ?_⟩
        simpa using h
  · rintro ⟨label, hdomain, hne, hdot⟩
    have hfront : domain.toList.dropSuffix? base = some (label ++ ['.']) :=
      dropSuffix?_eq_some_iff.mpr ⟨base, by simp [hdomain], by simp⟩
    have hlabel : (label ++ ['.']).dropSuffix? ['.'] = some label :=
      dropSuffix?_eq_some_iff.mpr ⟨['.'], rfl, by simp⟩
    simp [hfront, hlabel, hne, hdot]

theorem toList_of_wildcard {pattern : String} {base : List Char}
    (hbase : pattern.toList.dropPrefix? ['*', '.'] = some base) :
    pattern.toList = '*' :: '.' :: base := by
  obtain ⟨_, hpattern, hstar⟩ := dropPrefix?_eq_some_iff.mp hbase
  rw [beq_iff_eq] at hstar
  rw [hpattern, hstar]
  rfl

/-- A pattern without letters matches the other spellings of a name it matches. -/
theorem matchesDomain_of_letterFree {pattern domain domain' : String}
    (hfree : LetterFree pattern.toList) (hsame : SameUpToCase domain.toList domain'.toList)
    (hmatch : matchesDomain pattern domain = true) : matchesDomain pattern domain' = true := by
  by_cases hstar : pattern = "*"
  · simp [matchesDomain, hstar]
  cases hpattern : pattern.toList.dropPrefix? ['*', '.'] with
  | none =>
    have hdomain := (matchesDomain_exact hstar hpattern).mp hmatch
    rw [← hdomain] at hfree
    have hname := String.toList_injective (hsame.eq_of_letterFree hfree)
    rw [hname]
    exact hmatch
  | some base =>
    obtain ⟨label, hdomain, hne, hdot⟩ := (matchesDomain_wildcard hpattern).mp hmatch
    rw [hdomain] at hsame
    obtain ⟨label', rear, hdomain', hlabel, hrear⟩ := hsame.append_left
    have hsuffix : LetterFree ('.' :: base) := by
      intro c hc
      refine hfree c ?_
      rw [toList_of_wildcard hpattern]
      exact mem_cons_of_mem _ hc
    rw [hrear.eq_of_letterFree hsuffix] at hdomain'
    refine (matchesDomain_wildcard hpattern).mpr ⟨label', hdomain', ?_, ?_⟩
    · rintro rfl
      exact hne (map_eq_nil_iff.mp hlabel)
    · exact (hlabel.mem_iff (by decide)).not.mp hdot

theorem letterFree_of_matchesDomain {pattern domain domain' : String}
    (hswap : domain'.toList = domain.toList.map swapCase)
    (hmatch : matchesDomain pattern domain = true)
    (hmatch' : matchesDomain pattern domain' = true) : LetterFree pattern.toList := by
  by_cases hstar : pattern = "*"
  · rw [hstar]
    decide
  cases hpattern : pattern.toList.dropPrefix? ['*', '.'] with
  | none =>
    have hdomain := (matchesDomain_exact hstar hpattern).mp hmatch
    have hdomain' := (matchesDomain_exact hstar hpattern).mp hmatch'
    rw [hdomain, hdomain'] at hswap
    exact letterFree_of_swapCase hswap.symm
  | some base =>
    obtain ⟨label, hdomain, -, -⟩ := (matchesDomain_wildcard hpattern).mp hmatch
    obtain ⟨label', hdomain', -, -⟩ := (matchesDomain_wildcard hpattern).mp hmatch'
    -- the two bases end at the same place
    have hends : label' ++ '.' :: base = label.map swapCase ++ ('.' :: base).map swapCase := by
      rw [← hdomain', hswap, hdomain, map_append]
    have hbase := (append_inj' hends (by simp)).2
    have hfree := letterFree_of_swapCase hbase.symm
    intro c hc
    rw [toList_of_wildcard hpattern, mem_cons] at hc
    rcases hc with rfl | hc
    · decide
    · exact hfree c hc

theorem sameUpToCase_queriedDomain {question question' : Question}
    (h : SameUpToCase question.name.toList question'.name.toList) :
    SameUpToCase (queriedDomain question).toList (queriedDomain question').toList := by
  simp only [queriedDomain, String.toList_ofList]
  exact h.rdropWhile (by decide)

/-- The question with every letter of the name in the other case. -/
def Question.swapped (question : Question) : Question :=
  { question with name := String.ofList (question.name.toList.map swapCase) }

theorem queriedDomain_swapped (question : Question) :
    (queriedDomain question.swapped).toList = (queriedDomain question).toList.map swapCase := by
  have hdot : ((· == '.') ∘ swapCase : Char → Bool) = (· == '.') := by
    funext c
    rw [Function.comp_apply, Bool.eq_iff_iff, beq_iff_eq, beq_iff_eq, swapCase_eq_iff (by decide)]
  simp only [queriedDomain, Question.swapped, String.toList_ofList]
  rw [List.rdropWhile, List.rdropWhile, ← map_reverse, dropWhile_map, hdot,
    map_reverse]

/-- The pattern that owns a name, if there is one. -/
def DnsGateway.ownerPattern (g : DnsGateway) (question : Question) : Option String :=
  (g.owner (queriedDomain question)).map DomainMatcher.domain

/-- Names that differ only in the case of letters have the same owner. -/
def DnsGateway.CaseInsensitive (g : DnsGateway) : Prop :=
  ∀ question question' : Question, SameUpToCase question.name.toList question'.name.toList →
    g.ownerPattern question = g.ownerPattern question'

theorem matches_of_owner {g : DnsGateway} {domain : String} {owner : DomainMatcher}
    (h : g.owner domain = some owner) : matchesDomain owner.domain domain = true :=
  find?_some (p := fun m : DomainMatcher => matchesDomain m.domain domain) h

theorem find?_eq_find? {α : Type*} {p q : α → Bool} {l : List α}
    (hp : ∀ a, l.find? p = some a → q a = true) (hq : ∀ a, l.find? q = some a → p a = true) :
    l.find? p = l.find? q := by
  induction l with
  | nil => rfl
  | cons a l ih =>
    cases hpa : p a with
    | true =>
      have hqa := hp a (by simp [hpa])
      simp [hpa, hqa]
    | false =>
      cases hqa : q a with
      | true =>
        have hpa' := hq a (by simp [hqa])
        simp [hpa] at hpa'
      | false =>
        simp only [find?_cons, hpa, hqa] at hp hq ⊢
        exact ih hp hq

/-- The owner of a name does not depend on its case exactly when the patterns that own names
have no letters. -/
theorem caseInsensitive_iff {fromUtf8 : NameSyntax} (g : DnsGatewayFilterConfig fromUtf8) :
    g.config.CaseInsensitive ↔
      ∀ question owner, g.config.owner (queriedDomain question) = some owner →
        LetterFree owner.domain.toList := by
  constructor
  · intro h question owner howner
    have hswapped := h question question.swapped (by
      simpa [Question.swapped] using sameUpToCase_swapCase question.name.toList)
    rw [DnsGateway.ownerPattern, howner, DnsGateway.ownerPattern] at hswapped
    obtain ⟨owner', howner', hpattern⟩ := Option.map_eq_some_iff.mp hswapped.symm
    have hmatch' := matches_of_owner howner'
    rw [hpattern] at hmatch'
    exact letterFree_of_matchesDomain (queriedDomain_swapped question) (matches_of_owner howner)
      hmatch'
  · intro hfree question question' hsame
    have hdomains := sameUpToCase_queriedDomain hsame
    have howner : g.config.owner (queriedDomain question) =
        g.config.owner (queriedDomain question') := by
      refine find?_eq_find? (fun owner h => ?_) (fun owner h => ?_)
      · exact matchesDomain_of_letterFree (hfree question owner h) hdomains (matches_of_owner h)
      · exact matchesDomain_of_letterFree (hfree question' owner h) hdomains.symm
          (matches_of_owner h)
    rw [DnsGateway.ownerPattern, howner, DnsGateway.ownerPattern]

/-- One exact pattern. -/
def singleName : DnsGatewayFilterConfig dottedNames where
  config := { domains := [⟨"api.aws.com", [], "10.0.0.0", 24⟩], failOpen := false }
  valid := by decide

/-- The name in capitals is passed on. -/
theorem singleName_caseSensitive :
    singleName.config.ownerPattern ⟨"api.aws.com.", .a⟩ = some "api.aws.com" ∧
      (singleName.config.processDnsQuery (addressQuery "API.aws.com.") 1
        (.withLimits .default)).1 = none ∧
      ¬singleName.config.CaseInsensitive := by
  have hlower : singleName.config.ownerPattern ⟨"api.aws.com.", .a⟩ = some "api.aws.com" := by
    decide +kernel
  have hupper : singleName.config.ownerPattern ⟨"API.aws.com.", .a⟩ = none := by decide +kernel
  refine ⟨hlower, by decide +kernel, ?_⟩
  intro h
  have hsame := h ⟨"api.aws.com.", .a⟩ ⟨"API.aws.com.", .a⟩ (by decide +kernel)
  rw [hlower, hupper] at hsame
  cases hsame

end BuiltOnEnvoy.Dns
